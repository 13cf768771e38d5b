import Mathlib.Tactic.Common
import Shaderwright.Proofs.Msl.Helpers
import Shaderwright.Proofs.Msl.Renaming
import Shaderwright.Proofs.Msl.Rendering

/-!
Plain shaders: their names are identifiers, their operators punctuation, and none of their helpers
is called like a variable, like a word of a literal or like a word that MSL itself needs.
-/

namespace Shaderwright.Msl

/-! ### Words of the language -/

/-- The words that are written without being in the shader, whatever the shader is. -/
def languageWords : List String :=
  ["define", "constant", "thread", "fragment", "sampler", "buffer", "stage_in", "FragmentIn",
    "return", "if", "else", "for", "break", "continue", "discard_fragment",
    "texture2d", "atan2", "_sampler", "_uniforms", "_in"] ++
  (scalarNames ++ functions.entries).map Prod.snd

/-- Whether the words of a text are numbers and words of the language. -/
def isLanguageText (text : String) : Bool :=
  (exposed text.toList).all fun word =>
    word.isEmpty || word.head?.any Char.isDigit || languageWords.contains (String.ofList word)

/-- The texts around the names of a shader, and the names that are given to the language's own. -/
def languageTexts : List String :=
  ["constant ", "fragment float4 ", "(FragmentIn _in [[stage_in]], constant ",
    "& _uniforms [[buffer(0)]], sampler _sampler [[sampler(0)]])", "float4 ", " = float4(0.0);",
    "sampler _sampler", "& _uniforms", "(_sampler, _uniforms", "_uniforms", "atan2",
    "return ", "return;\n", "if (", " else ", "for (", "break;", "continue;",
    "discard_fragment();"] ++
  (types.entries ++ qualifiers.entries ++ functions.entries ++
    (inputTable inputName).entries).map Prod.snd

lemma isLanguageText_of_mem {text : String} (h : text ∈ languageTexts) :
    isLanguageText text = true := by
  have hall : languageTexts.all isLanguageText = true := by decide +kernel
  exact List.all_eq_true.mp hall text h

/-- All words that are written without being in the shader. -/
def backendWords (shader : String) : List String :=
  languageWords ++ [uniformsName shader, prefixed shader entryPointName]

/-! ### Plain trees -/

def plainName (helpers : List String) (name : String) : Bool :=
  isIdentifier name && !helpers.contains name

/-- A text in which no helper stands as a word of its own. -/
def plainText (helpers : List String) (text : String) : Bool :=
  (exposed text.toList).all fun word => !(helpers.map String.toList).contains word

mutual

def plainExpr (helpers : List String) : Expr → Bool
  | .absent => true
  | .ident name _ => plainName helpers name
  | .literal text _ => plainText helpers text
  | .call callee args => isIdentifier callee && plainExprs helpers args
  | .binary op x y => isPunctuation op && plainExpr helpers x && plainExpr helpers y
  | .unary op x => isPunctuation op && plainExpr helpers x
  | .assign op lhs rhs => isPunctuation op && plainExpr helpers lhs && plainExpr helpers rhs
  | .member x field => isIdentifier field && plainExpr helpers x
  | .index x i => plainExpr helpers x && plainExpr helpers i

def plainExprs (helpers : List String) : List Expr → Bool
  | [] => true
  | e :: es => plainExpr helpers e && plainExprs helpers es

end

lemma plainExprs_eq_true {helpers : List String} {es : List Expr} :
    plainExprs helpers es = true ↔ ∀ e ∈ es, plainExpr helpers e = true := by
  induction es with
  | nil => simp [plainExprs]
  | cons e es ih => simp [plainExprs, ih]

/-- The operators of C are punctuation. -/
example : ∀ op ∈ ["+", "-", "*", "/", "%", "++", "--", "==", "!=", "<", ">", "<=", ">=", "!", "&&",
    "||", "~", "&", "|", "^", "<<", ">>", "=", "+=", "-=", "*=", "/=", "%=", "&=", "|=", "^=",
    "<<=", ">>=", ","], isPunctuation op = true := by decide

def plainVar (helpers : List String) (v : VarDecl) : Bool :=
  plainName helpers v.var.name && plainExpr helpers v.init

mutual

def plainStmt (helpers : List String) : Stmt → Bool
  | .block ss => plainStmts helpers ss
  | .decl v => plainVar helpers v
  | .expr x => plainExpr helpers x
  | .returns value => plainExpr helpers value
  | .ifElse cond yes no => plainExpr helpers cond && plainStmt helpers yes && plainStmt helpers no
  | .loop init cond post body =>
    plainStmt helpers init && plainExpr helpers cond && plainExpr helpers post &&
      plainStmt helpers body
  | _ => true

def plainStmts (helpers : List String) : List Stmt → Bool
  | [] => true
  | s :: ss => plainStmt helpers s && plainStmts helpers ss

end

lemma plainStmts_eq_true {helpers : List String} {ss : List Stmt} :
    plainStmts helpers ss = true ↔ ∀ s ∈ ss, plainStmt helpers s = true := by
  induction ss with
  | nil => simp [plainStmts]
  | cons s ss ih => simp [plainStmts, ih]

/-- A function; the entry point also writes its accumulator, which may not be in the tree. -/
def plainFunc (helpers : List String) (f : FuncDef) : Bool :=
  isIdentifier f.name && f.params.all (plainVar helpers) && plainStmts helpers f.body &&
    (f.name != entryPointName || plainName helpers f.accumulator)

def plainDecl (helpers : List String) : Decl → Bool
  | .absent => true
  | .var v => plainVar helpers v
  | .func f => plainFunc helpers f

/-- The helpers of a shader cannot be mistaken for anything else in its text. -/
def helpersApart (s : Shader) : Bool :=
  isIdentifier s.name && s.decls.all (plainDecl (helperNames s)) &&
    (helperNames s).all fun n => !(backendWords s.name).contains n

def plainShader (s : Shader) : Bool := helpersApart s && !s.decls.any declReads

end Shaderwright.Msl
