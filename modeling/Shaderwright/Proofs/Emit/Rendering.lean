import Mathlib.Tactic.Common
import Shaderwright.Emit.Names
import Shaderwright.Emit.Stmt
import Shaderwright.Proofs.Shader.Parts
import Shaderwright.Text.Basic

/-!
How a shader tree reads in a target language, as a function of the tree alone. No writer is involved
that could remember anything: a statement reads alike wherever it stands at the same depth, and the
only thing it takes from its function is what a bare return hands back.
-/

namespace Shaderwright

/-- An argument of a call with the text it reads as. -/
structure Phrase where
  expr : Expr
  text : String
  /-- For an element `name[i]` of a named array, the name and the text of the index. -/
  element : Option (String × String)

def calledBy (name : String) (args : List Phrase) : String :=
  name ++ "(" ++ Text.joinWith ", " (args.map Phrase.text) ++ ")"

/-- A call by the mapped name; the arc tangent has another name if it takes two arguments. -/
def mappedCall (functions : NameTable) (callee : String) (args : List Phrase) : String :=
  if callee = "atan" && args.length = 2 then calledBy "atan2" args
  else calledBy (functions.get callee) args

/-- The vocabulary of a target language at one place of a shader. -/
structure Phrasing where
  types : NameTable
  qualifiers : NameTable
  variableNames : NameTable
  call : String → List Phrase → String
  discard : String

/-! ### Expressions -/

mutual

def Expr.text (p : Phrasing) : Expr → String
  | .absent => ""
  | .ident name _ => p.variableNames.get name
  | .literal text _ => text
  | .call callee args => p.call callee (Expr.phrases p args)
  | .binary op x y => "(" ++ x.text p ++ (" " ++ op ++ " ") ++ y.text p ++ ")"
  | .unary op x => op ++ x.text p
  | .assign op lhs rhs => lhs.text p ++ (" " ++ op ++ " ") ++ rhs.text p
  | .member x field => x.text p ++ ("." ++ field)
  | .index x i => x.text p ++ "[" ++ i.text p ++ "]"

def Expr.phrases (p : Phrasing) : List Expr → List Phrase
  | [] => []
  | .index (.ident name ref) i :: rest =>
    ⟨.index (.ident name ref) i, Expr.text p (.index (.ident name ref) i),
      some (name, i.text p)⟩ :: Expr.phrases p rest
  | arg :: rest => ⟨arg, arg.text p, none⟩ :: Expr.phrases p rest

end

/-- An expression as the argument of a call. -/
def Expr.phrase (p : Phrasing) (e : Expr) : Phrase where
  expr := e
  text := e.text p
  element :=
    match e with
    | .index (.ident name _) i => some (name, i.text p)
    | _ => none

lemma Expr.phrases_eq_map (p : Phrasing) (es : List Expr) :
    Expr.phrases p es = es.map (Expr.phrase p) := by
  induction es with
  | nil => rw [Expr.phrases, List.map_nil]
  | cons e es ih =>
    rw [List.map_cons, ← ih]
    conv_lhs => unfold Expr.phrases
    split
    · simp_all
    · simp_all [Expr.phrase]
    · simp_all [Expr.phrase]

/-- Whether an expression is itself the read of a texture. -/
def Expr.isRead : Expr → Bool
  | .call callee _ => callee = sampleFunction
  | _ => false

def Expr.reads (e : Expr) : Bool := e.parts.any Expr.isRead

lemma Expr.text_of_isAbsent {p : Phrasing} (e : Expr) (h : e.isAbsent = true) : e.text p = "" := by
  cases e with
  | absent => rw [Expr.text]
  | _ => simp [Expr.isAbsent] at h

lemma Expr.reads_of_isAbsent (e : Expr) (h : e.isAbsent = true) : e.reads = false := by
  cases e with
  | absent => simp [Expr.reads, Expr.parts, Expr.isRead]
  | _ => simp [Expr.isAbsent] at h

/-! ### Declarations -/

/-- A declaration without its semicolon. -/
def VarDecl.text (p : Phrasing) (v : VarDecl) : String :=
  (if p.qualifiers.get v.var.qualifier.text = "" then ""
    else p.qualifiers.get v.var.qualifier.text ++ " ") ++
    p.types.get v.var.type.name ++ " " ++ p.variableNames.get v.var.name ++ v.var.extent ++
    if v.init.isAbsent then "" else " = " ++ v.init.text p

def VarDecl.constantText (p : Phrasing) (v : VarDecl) : String :=
  p.qualifiers.get v.var.qualifier.text ++ " " ++ p.variableNames.get v.var.name ++ " (" ++
    v.init.text p ++ ")"

def VarDecl.localText (p : Phrasing) (v : VarDecl) : String :=
  if v.var.qualifier = .const then v.constantText p else v.text p ++ ";"

/-! ### Statements -/

def lineAt (depth : Nat) (text : String) : String := Emit.indentation depth ++ (text ++ "\n")

/-- A block at a depth around what stands in it. -/
def bracedAt (depth : Nat) (inside : String) : String :=
  "\x7b\n" ++ inside ++ Emit.indentation depth ++ "\x7d"

/-- A return without a value, in a function that hands back `result` then. -/
def bareReturn : Option String → String
  | none => "return;"
  | some result => "return " ++ result ++ ";"

def Stmt.start (p : Phrasing) : Stmt → String
  | .decl v => v.text p
  | .expr x => x.text p
  | _ => ""

/-- What stands in the braces of a branch: what stands in a block, and any other statement as a
whole. -/
def Stmt.inBraces (s : Stmt) (contents whole : String) : String :=
  match s with
  | .block _ => contents
  | _ => whole

mutual

/-- The lines of a statement at a depth. Blocks, branches and loops hand the result of the function
on to what stands in them and add nothing but their braces. -/
def Stmt.lines (p : Phrasing) (result : Option String) (depth : Nat) : Stmt → String
  | .absent => ""
  | .block ss => Emit.indentation depth ++ bracedAt depth (linesOf p result (depth + 1) ss) ++ "\n"
  | .decl v => lineAt depth (v.localText p)
  | .expr x => lineAt depth (x.text p ++ ";")
  | .returns value =>
    lineAt depth (if value.isAbsent then bareReturn result else "return " ++ value.text p ++ ";")
  | .ifElse cond yes no =>
    lineAt depth ("if (" ++ cond.text p ++ ") " ++
      bracedAt depth (yes.inBraces (yes.contents p result (depth + 1))
        (yes.lines p result (depth + 1))) ++
      if no.isAbsent then "" else " else " ++
        bracedAt depth (no.inBraces (no.contents p result (depth + 1))
          (no.lines p result (depth + 1))))
  | .loop init cond post body =>
    lineAt depth ("for (" ++ init.start p ++ "; " ++ cond.text p ++ "; " ++ post.text p ++ ") " ++
      bracedAt depth (body.inBraces (body.contents p result (depth + 1))
        (body.lines p result (depth + 1))))
  | .discard => lineAt depth p.discard
  | .breakLoop => lineAt depth "break;"
  | .continueLoop => lineAt depth "continue;"

def Stmt.contents (p : Phrasing) (result : Option String) (depth : Nat) : Stmt → String
  | .block ss => linesOf p result depth ss
  | _ => ""

def Stmt.linesOf (p : Phrasing) (result : Option String) (depth : Nat) : List Stmt → String
  | [] => ""
  | s :: ss => s.lines p result depth ++ linesOf p result depth ss

end

def Stmt.reads (s : Stmt) : Bool := s.exprs.any Expr.isRead

lemma Stmt.exprs_of_isAbsent (s : Stmt) (h : s.isAbsent = true) : s.exprs = [] := by
  cases s with
  | absent => rw [Stmt.exprs]
  | _ => simp [Stmt.isAbsent] at h

/-! ### Functions -/

def FuncDef.reads (f : FuncDef) : Bool := (Stmt.exprsOf f.body).any Expr.isRead

def FuncDef.text (p : Phrasing) (signature : String) (f : FuncDef) : String :=
  signature ++ " " ++ bracedAt 0 (Stmt.linesOf p none 1 f.body) ++ "\n\n"

/-- A function whose body has a first and a last line of its own; a bare return hands `result`
back. -/
def FuncDef.framedText (p : Phrasing) (signature first : String) (result : Option String)
    (last : String) (f : FuncDef) : String :=
  signature ++ " " ++
    bracedAt 0 (lineAt 1 first ++ Stmt.linesOf p result 1 f.body ++ lineAt 1 last) ++ "\n\n"

/-- The entry point under its signature. The accumulator is initialized in the first line of the
body and returned in the last one and by every bare return. -/
def FuncDef.entryText (p : Phrasing) (signature init accumulator : String) (f : FuncDef) : String :=
  signature ++ " " ++
    bracedAt 0 (lineAt 1 init ++ Stmt.linesOf p (some accumulator) 1 f.body ++
      lineAt 1 ("return " ++ accumulator ++ ";")) ++ "\n\n"

end Shaderwright
