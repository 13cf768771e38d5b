import Shaderwright.Shader.Tree

/-!
The type of an expression, as far as the tree itself tells it: identifiers have the type of
their variable, constructor calls the type they name, swizzles as many components as they
have letters. The result of any other call is unknown.
-/

namespace Shaderwright

namespace Ref

def type? : Ref → Option ShaderType
  | unresolved => none
  | input i => some i.type
  | declared v => some v.type

def isArray : Ref → Bool
  | declared v => v.isArray
  | _ => false

/-- The number of elements of the variable that the identifier stands for, if it stands for one. -/
def count? : Ref → Option Int64
  | unresolved => none
  | input _ => some 1
  | declared v => some v.count

end Ref

/-- Whether an identifier reads a stage input: a resolved one has to refer to it, for an
unresolved one the name decides. -/
def isStageInput (name : String) : Ref → Bool
  | .input _ => true
  | .unresolved => (StageInput.ofName? name).isSome
  | .declared _ => false

def swizzleLetters : List Char := ['x', 'y', 'z', 'w', 'r', 'g', 'b', 'a']

def isSwizzle (field : String) : Bool :=
  let cs := field.toList
  1 ≤ cs.length && cs.length ≤ 4 && cs.all swizzleLetters.contains

def isTest (op : String) : Bool :=
  ["<", "<=", ">", ">=", "==", "!=", "&&", "||"].contains op

namespace Expr

def type? : Expr → Option ShaderType
  | absent => none
  | ident _ ref => ref.type?
  | literal _ kind =>
    match kind with
    | .float => some .float
    | .int => some .int
    | _ => some .bool
  | call callee _ => ShaderType.ofConstructor? callee
  | member x field =>
    match type? x with
    | some t => if t.isNumeric && isSwizzle field then some ⟨t.base, field.length⟩ else none
    | none => none
  | index x _ =>
    match type? x with
    | none => none
    | some t =>
      let isArray := match x with
        | ident _ ref => ref.isArray
        | _ => false
      if isArray then some t
      else if t.isNumeric && 1 < t.arity then some ⟨t.base, 1⟩
      else none
  | unary _ x => type? x
  | binary op x y =>
    if isTest op then some .bool
    else
      match type? x, type? y with
      -- the wider operand decides, the left one if both are equally wide
      | some l, some r => if l.arity < r.arity then some r else some l
      | some l, none => some l
      | none, r => r
  | assign _ lhs _ => type? lhs

end Expr

end Shaderwright
