import Shaderwright.Shader.EntryPoint

/-!
The reasons why no text can be written for a shader.
-/

namespace Shaderwright

inductive StmtShape where
  | absent
  | block
  | decl
  | expr
  | returns
  | ifElse
  | loop
  | discard
  | breakLoop
  | continueLoop
  deriving DecidableEq, Repr

def Stmt.shape : Stmt → StmtShape
  | absent => .absent
  | block _ => .block
  | decl _ => .decl
  | expr _ => .expr
  | returns _ => .returns
  | ifElse .. => .ifElse
  | loop .. => .loop
  | discard => .discard
  | breakLoop => .breakLoop
  | continueLoop => .continueLoop

/-- The name by which messages call a kind of statement. -/
def StmtShape.text : StmtShape → String
  | absent => "<nil>"
  | block => "*ast.CompoundStmt"
  | decl => "*ast.DeclStmt"
  | expr => "*ast.ExprStmt"
  | returns => "*ast.ReturnStmt"
  | ifElse => "*ast.IfStmt"
  | loop => "*ast.ForStmt"
  | discard => "*ast.DiscardStmt"
  | breakLoop => "*ast.BreakStmt"
  | continueLoop => "*ast.ContinueStmt"

/-- What a target language refuses in a well-formed tree. -/
inductive Refusal where
  | unnamedShader
  | constantWithoutValue (name : String)
  | localParameter (name function : String)
  | unbindable (name : String) (type : ShaderType)
  | uninitialized (name : String)
  | inputOutsideEntry (name : String)
  | entryPoint (why : EntryFault)
  | sampleArity (n : Nat)
  | sampleTexture
  deriving DecidableEq, Repr

inductive RefusalKind where
  | declaration
  | entryPoint
  | call
  deriving DecidableEq, Repr

namespace Refusal

def kind : Refusal → RefusalKind
  | entryPoint _ => .entryPoint
  | sampleArity _ => .call
  | sampleTexture => .call
  | _ => .declaration

def message : Refusal → String
  | unnamedShader => "shader has no name"
  | constantWithoutValue name => "constant " ++ Text.quote name ++ " has no value"
  | localParameter name function =>
    "parameter " ++ Text.quote name ++ " declared inside function " ++ Text.quote function
  | unbindable name type => "parameter " ++ Text.quote name ++ " has unbindable type " ++ type.name
  | uninitialized name => "program-scope variable " ++ Text.quote name ++ " needs an initializer"
  | inputOutsideEntry name => "builtin input used outside the entry point: " ++ name
  | entryPoint why => why.message
  | sampleArity n => "sample expects 2 arguments, got " ++ toString n
  | sampleTexture => "sample texture must be a named sampler"

end Refusal

namespace RefusalKind

def text : RefusalKind → String
  | declaration => "InvalidDeclaration"
  | entryPoint => "InvalidEntryPoint"
  | call => "InvalidCall"

end RefusalKind

/-- The kinds of errors of the target languages. -/
inductive ErrorKind where
  | refused (kind : RefusalKind)
  | slotBudget
  | internal
  | unknown
  deriving DecidableEq, Repr

namespace ErrorKind

def text : ErrorKind → String
  | refused kind => kind.text
  | slotBudget => "SlotBudgetExceeded"
  | internal => "InternalError"
  | unknown => "Unknown"

def ofCode (kinds : List ErrorKind) (n : Nat) : ErrorKind := kinds.getD n .unknown

end ErrorKind

inductive Fault where
  | noShader
  | noDeclaration
  | noStatement
  | noExpression
  | loopStart (shape : StmtShape)
  | unmapped (table key : String)
  | inputScope (name : String)
  | refused (why : Refusal)
  deriving DecidableEq, Repr

namespace Fault

/-- The message of a fault; `target` is the language whose rules a refusal names. -/
def message (target : String) : Fault → String
  | noShader => "shader is nil"
  | noDeclaration => "unsupported declaration: <nil>"
  | noStatement => "nil statement"
  | noExpression => "nil expression"
  | loopStart shape => "unsupported for-loop initializer: " ++ shape.text
  | unmapped table key => table ++ " table has no mapping for " ++ Text.quote key
  | inputScope name => "builtin input used outside the entry point: " ++ name
  | refused why => target ++ " " ++ why.kind.text ++ ": " ++ why.message

/-- A target language counts a misplaced stage input among the declarations it refuses. -/
def ofTarget : Fault → Fault
  | inputScope name => refused (.inputOutsideEntry name)
  | f => f

end Fault

end Shaderwright
