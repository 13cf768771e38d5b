import Shaderwright.Source.Form
import Shaderwright.Yaml.Decode

/-!
From a YAML document to the form of a shader file. A statement or an expression is read from its
excerpt, as if it were a document of its own: first to see whether it is a scalar, a list or a
mapping, and then, as a mapping, for the kinds that it sets.
-/

namespace Shaderwright.Source

open Yaml

/-- How statements and expressions are read from their excerpts. -/
structure Readers where
  expr : String → Decoding ExprForm
  stmt : String → Decoding StmtForm

namespace Readers

def exprOf (r : Readers) : Node → Decoding (Option ExprForm) :=
  Node.some? fun n => r.expr n.excerpt

def stmtOf (r : Readers) : Node → Decoding (Option StmtForm) :=
  Node.some? fun n => r.stmt n.excerpt

def exprsOf (r : Readers) : Node → Decoding (Option (List ExprForm)) := Node.items? r.exprOf

def stmtsOf (r : Readers) : Node → Decoding (Option (List StmtForm)) := Node.items? r.stmtOf

end Readers

def textField (fs : Fields) (key : String) : Decoding String := do
  return (← field fs key Node.text?).getD ""

def intField (fs : Fields) (key : String) : Decoding Int := do
  return (← field fs key Node.int?).getD 0

def boolField (fs : Fields) (key : String) : Decoding Bool := do
  return (← field fs key Node.bool?).getD false

def varForm (r : Readers) (fs : Fields) : Decoding VarForm := do
  let v : VarForm :=
    { name := ← textField fs "name"
      type := ← textField fs "type"
      qualifier := ← textField fs "qualifier"
      precision := ← textField fs "precision"
      slot := ← intField fs "slot"
      array := ← intField fs "array"
      out := ← boolField fs "out"
      init := ← field fs "init" r.exprOf }
  onlyKeys ["name", "type", "qualifier", "precision", "slot", "array", "out", "init"] fs
  return v

/-! ### Expressions -/

def callForm (r : Readers) (fs : Fields) : Decoding ExprKind := do
  let k := .call (← textField fs "callee") ((← field fs "args" r.exprsOf).getD [])
  onlyKeys ["callee", "args"] fs
  return k

def binaryForm (r : Readers) (fs : Fields) : Decoding ExprKind := do
  let k := .binary (← textField fs "op") (← field fs "x" r.exprOf) (← field fs "y" r.exprOf)
  onlyKeys ["op", "x", "y"] fs
  return k

def unaryForm (r : Readers) (fs : Fields) : Decoding ExprKind := do
  let k := .unary (← textField fs "op") (← field fs "x" r.exprOf)
  onlyKeys ["op", "x"] fs
  return k

def assignForm (r : Readers) (fs : Fields) : Decoding ExprKind := do
  let k := .assign (← textField fs "op") (← field fs "lhs" r.exprOf) (← field fs "rhs" r.exprOf)
  onlyKeys ["op", "lhs", "rhs"] fs
  return k

def memberForm (r : Readers) (fs : Fields) : Decoding ExprKind := do
  let k := .member (← field fs "x" r.exprOf) (← textField fs "field")
  onlyKeys ["x", "field"] fs
  return k

def indexForm (r : Readers) (fs : Fields) : Decoding ExprKind := do
  let k := .index (← field fs "x" r.exprOf) (← field fs "index" r.exprOf)
  onlyKeys ["x", "index"] fs
  return k

/-- The kinds that a mapping sets, in the order of precedence. -/
def exprKinds (r : Readers) (fs : Fields) : Decoding ExprForm := do
  let kinds := [
    ← field fs "lit" fun n => return (← n.text?).map .lit,
    ← field fs "call" (Node.record? (callForm r)),
    ← field fs "binary" (Node.record? (binaryForm r)),
    ← field fs "unary" (Node.record? (unaryForm r)),
    ← field fs "assign" (Node.record? (assignForm r)),
    ← field fs "member" (Node.record? (memberForm r)),
    ← field fs "index" (Node.record? (indexForm r))]
  onlyKeys ["lit", "call", "binary", "unary", "assign", "member", "index"] fs
  return .kinds (kinds.filterMap id)

def excerptDocument (text : String) : Decoding (Option Yaml.Document) :=
  (Yaml.read text).mapError fun _ => .mismatch

def exprForm (r : Readers) (text : String) : Decoding ExprForm := do
  match ← excerptDocument text with
  | none => return .kinds []
  | some ⟨node, value⟩ =>
    match value with
    | .map _ => exprKinds r (← node.fields)
    | .list _ => return .list value.shown
    | .scalar .null => return .kinds []
    | .scalar s => return .scalar s

/-! ### Statements -/

def ifForm (r : Readers) (fs : Fields) : Decoding StmtKind := do
  let k := .ifElse (← field fs "cond" r.exprOf) ((← field fs "then" r.stmtsOf).getD [])
    (← field fs "else" r.stmtsOf)
  onlyKeys ["cond", "then", "else"] fs
  return k

def loopForm (r : Readers) (fs : Fields) : Decoding StmtKind := do
  let k := .loop (← field fs "init" r.stmtOf) (← field fs "cond" r.exprOf)
    (← field fs "post" r.exprOf) ((← field fs "body" r.stmtsOf).getD [])
  onlyKeys ["init", "cond", "post", "body"] fs
  return k

/-- The kinds that a mapping sets, in the order of precedence. -/
def stmtKinds (r : Readers) (fs : Fields) : Decoding StmtForm := do
  let kinds := [
    ← field fs "block" fun n => return (← r.stmtsOf n).map .block,
    ← field fs "var" fun n => return (← n.record? (varForm r)).map .var,
    ← field fs "expr" fun n => return (← r.exprOf n).map .expr,
    ← field fs "return" fun n => return (← r.exprOf n).map .returns,
    ← field fs "if" (Node.record? (ifForm r)),
    ← field fs "for" (Node.record? (loopForm r))]
  onlyKeys ["block", "var", "expr", "return", "if", "for"] fs
  return .kinds (kinds.filterMap id)

def stmtForm (r : Readers) (text : String) : Decoding StmtForm := do
  match ← excerptDocument text with
  | none => return .kinds []
  | some ⟨node, value⟩ =>
    match value with
    | .scalar (.string word) => return .word word
    | _ => stmtKinds r (← node.fields)

/-- Reading nested statements and expressions down to this depth. -/
def readers : Nat → Readers
  | 0 => ⟨fun _ => .error .mismatch, fun _ => .error .mismatch⟩
  | depth + 1 =>
    ⟨fun text => exprForm (readers depth) text, fun text => stmtForm (readers depth) text⟩

/-! ### Declarations -/

def funcForm (r : Readers) (fs : Fields) : Decoding FuncForm := do
  let f : FuncForm :=
    { name := ← textField fs "name"
      returns := ← textField fs "return"
      params := (← field fs "params" (Node.items? (Node.record? (varForm r)))).getD []
      body := (← field fs "body" r.stmtsOf).getD [] }
  onlyKeys ["name", "return", "params", "body"] fs
  return f

def declForm (r : Readers) (fs : Fields) : Decoding DeclForm := do
  let d : DeclForm :=
    { var := ← field fs "var" (Node.record? (varForm r))
      func := ← field fs "func" (Node.record? (funcForm r)) }
  onlyKeys ["var", "func"] fs
  return d

def shaderForm (r : Readers) (fs : Fields) : Decoding ShaderForm := do
  let s : ShaderForm :=
    { name := ← textField fs "name"
      decls := (← field fs "decls" (Node.items? (Node.record? (declForm r)))).getD [] }
  onlyKeys ["name", "decls"] fs
  return s

/-- The form of the shader that a node holds. No part of its text is nested deeper than `depth`. -/
def decodeShader (depth : Nat) (n : Node) : Decoding ShaderForm := do
  shaderForm (readers depth) (← n.fields)

end Shaderwright.Source
