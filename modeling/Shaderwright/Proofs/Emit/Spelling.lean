import Mathlib.Data.List.TakeWhile
import Mathlib.Tactic.Common
import Shaderwright.Proofs.Emit.Discipline
import Shaderwright.Proofs.Msl.Renaming

/-!
The text of an expression as a sequence of tokens. Where names are identifiers, literals are
numerals or truth values and operators are operators, the tokens can be told from the text: it is
scanned from left to right, and every token is as long as it can be.
-/

namespace Shaderwright

open Msl (isWordChar isIdentifier isWord_of_isIdentifier)

/-! ### Tokens -/

/-- A piece of the text of an expression. -/
inductive Token where
  /-- One character of an operator in front of its operand. -/
  | sign (c : Char)
  | name (n : String)
  | literal (text : String)
  /-- A name with the parenthesis that opens its arguments. -/
  | callee (n : String)
  | field (n : String)
  | opens
  | closes
  | opensIndex
  | closesIndex
  | comma
  /-- An operator between two operands. -/
  | infixed (op : String)

def Token.chars : Token → List Char
  | sign c => [c]
  | name n => n.toList
  | literal text => text.toList
  | callee n => n.toList ++ ['(']
  | field n => '.' :: n.toList
  | opens => ['(']
  | closes => [')']
  | opensIndex => ['[']
  | closesIndex => [']']
  | comma => [',', ' ']
  | infixed op => ' ' :: (op.toList ++ [' '])

mutual

def Expr.tokens : Expr → List Token
  | .absent => []
  | .ident name _ => [.name name]
  | .literal text _ => [.literal text]
  | .call callee [] => [.callee callee, .closes]
  | .call callee (arg :: args) => .callee callee :: (arg.tokens ++ (tokensBehind args ++ [.closes]))
  | .binary op x y => .opens :: (x.tokens ++ .infixed op :: (y.tokens ++ [.closes]))
  | .unary op x => op.toList.map .sign ++ x.tokens
  | .assign op lhs rhs => lhs.tokens ++ .infixed op :: rhs.tokens
  | .member x field => x.tokens ++ [.field field]
  | .index x i => x.tokens ++ .opensIndex :: (i.tokens ++ [.closesIndex])

def Expr.tokensBehind : List Expr → List Token
  | [] => []
  | arg :: args => .comma :: (arg.tokens ++ tokensBehind args)

end

lemma Expr.tokensBehind_eq_flatMap (args : List Expr) :
    Expr.tokensBehind args = args.flatMap fun arg => .comma :: arg.tokens := by
  induction args with
  | nil => rw [Expr.tokensBehind, List.flatMap_nil]
  | cons arg args ih => rw [Expr.tokensBehind, ih, List.flatMap_cons, List.cons_append]

/-! ### Writing tokens -/

/-- A step that succeeds puts these characters behind the output. -/
def Emit.Writes {σ : Type} (m : Emit σ Unit) (cs : List Char) : Prop :=
  ∀ w v, m.exec w = (.ok (), v) → v.out.toList = w.out.toList ++ cs

namespace Emit.Writes

variable {σ : Type} {m m' : Emit σ Unit} {cs cs' : List Char}

lemma of_eq (h : Writes m cs) (heq : cs = cs') : Writes m cs' := heq ▸ h

lemma write (text : String) : Writes (Emit.write text : Emit σ Unit) text.toList := by
  intro w v hv
  obtain ⟨-, rfl⟩ := Prod.mk.inj hv
  exact String.toList_append

lemma nothing : Writes (Pure.pure () : Emit σ Unit) [] := by
  intro w v hv
  obtain ⟨-, rfl⟩ := Prod.mk.inj hv
  rw [List.append_nil]

lemma bind (hm : Writes m cs) (hm' : Writes m' cs') :
    Writes (m >>= fun _ => m') (cs ++ cs') := by
  intro w v hv
  obtain ⟨_, u, hu, hv⟩ := exec_bind_eq_ok.mp hv
  rw [hm' u v hv, hm w u hu, List.append_assoc]

lemma separated (hm : Writes m cs) {ms : List (Emit σ Unit)} {css : List (List Char)}
    (h : List.Forall₂ Writes ms css) :
    Writes (Emit.separated ", " (m :: ms))
      (cs ++ css.flatMap fun cs => Token.comma.chars ++ cs) := by
  induction h generalizing m cs with
  | nil => simpa [Emit.separated] using hm
  | cons hnext hrest ih =>
    refine of_eq (bind hm (bind (write ", ") (ih hnext))) ?_
    simp [Token.chars]

end Emit.Writes

namespace ExprDialect

variable {σ : Type} {d : ExprDialect σ}

/-- Names stand for themselves, and calls are written in the default way. -/
structure IsPlain (d : ExprDialect σ) : Prop where
  names : ∀ s name, (d.variableNames s).get name = name
  call : ∀ callee args, d.call callee args = callNamed callee args

open Emit (Writes)

lemma IsPlain.writes (hd : d.IsPlain) (e : Expr) :
    Writes (d.expr e) (e.tokens.flatMap Token.chars) := by
  induction e using Expr.inductOn with
  | absent =>
    intro w v hv
    simp [ExprDialect.expr] at hv
  | ident name ref =>
    intro w v hv
    rw [ExprDialect.expr, Emit.exec_bind_of_ok (Emit.exec_get w)] at hv
    dsimp only at hv
    split at hv
    · simp at hv
    · rw [Emit.exec_bind_of_ok (exec_variableName d name w), hd.names] at hv
      simpa [Expr.tokens, Token.chars] using Emit.Writes.write name w v hv
  | literal text kind =>
    rw [ExprDialect.expr]
    exact .of_eq (.write text) (by simp [Expr.tokens, Token.chars])
  | call callee args ih =>
    rw [ExprDialect.expr, hd.call, operands_eq_map, callNamed, writeArgs]
    cases args with
    | nil =>
      refine .of_eq (.bind (.write _) (.bind .nothing (.write _))) ?_
      simp [Expr.tokens, Token.chars]
    | cons arg args =>
      have hargs : List.Forall₂ Writes ((args.map d.operand).map Operand.write)
          (args.map fun arg => arg.tokens.flatMap Token.chars) := by
        rw [List.map_map, List.forall₂_map_left_iff, List.forall₂_map_right_iff, List.forall₂_same]
        exact fun arg harg => ih arg (List.mem_cons_of_mem _ harg)
      refine .of_eq (.bind (.write _) (.bind (.separated (ih arg List.mem_cons_self) hargs)
        (.write _))) ?_
      simp [Expr.tokens, Expr.tokensBehind_eq_flatMap, Token.chars, List.flatMap_map,
        List.flatMap_assoc]
  | binary op x y hx hy =>
    rw [ExprDialect.expr]
    refine .of_eq (.bind (.write _) (.bind hx (.bind (.write _) (.bind hy (.write _))))) ?_
    simp [Expr.tokens, Token.chars]
  | unary op x hx =>
    rw [ExprDialect.expr]
    refine .of_eq (.bind (.write _) hx) ?_
    simp [Expr.tokens, Token.chars, List.flatMap_map]
  | assign op lhs rhs hl hr =>
    rw [ExprDialect.expr]
    refine .of_eq (.bind hl (.bind (.write _) hr)) ?_
    simp [Expr.tokens, Token.chars]
  | member x field hx =>
    rw [ExprDialect.expr]
    refine .of_eq (.bind hx (.write _)) ?_
    simp [Expr.tokens, Token.chars]
  | index x i hx hi =>
    rw [ExprDialect.expr]
    refine .of_eq (.bind hx (.bind (.write _) (.bind hi (.write _)))) ?_
    simp [Expr.tokens, Token.chars]

end ExprDialect

/-! ### Spelling -/

def unaryOperators : List String := ["-", "+", "!", "~", "++", "--"]

def binaryOperators : List String :=
  ["*", "/", "%", "+", "-", "<<", ">>", "<", "<=", ">", ">=", "==", "!=", "&", "^", "|", "&&", "||",
    ","]

def assignmentOperators : List String :=
  ["=", "*=", "/=", "%=", "+=", "-=", "<<=", ">>=", "&=", "^=", "|="]

def truthValues : List String := ["true", "false"]

def startsName (cs : List Char) : Bool := cs.head?.any fun c => isWordChar c && !c.isDigit

/-- Whether a numeral that has started goes on with this character. A dot in front of a name is that
of a field. -/
def continuesNumeral (c : Char) (behind : List Char) : Bool :=
  isWordChar c || c == '+' || c == '-' || c == '.' && !startsName behind

def continuesToEnd : List Char → Bool
  | [] => true
  | c :: cs => continuesNumeral c cs && continuesToEnd cs

/-- A number, with or without a fraction, an exponent and a suffix. -/
def isNumeral (text : String) : Bool :=
  (match text.toList with
    | '.' :: cs => cs.head?.any Char.isDigit
    | cs => cs.head?.any Char.isDigit) && continuesToEnd text.toList

/-- Whether the names, the literal or the operator that an expression adds to its parts are spelled
as such. -/
def Expr.legibleOwn : Expr → Bool
  | .absent => false
  | .ident name _ => isIdentifier name && !truthValues.contains name
  | .literal text _ => isNumeral text || truthValues.contains text
  | .call callee _ => isIdentifier callee
  | .binary op _ _ => binaryOperators.contains op
  | .unary op _ => unaryOperators.contains op
  | .assign op _ _ => assignmentOperators.contains op
  | .member _ field => isIdentifier field
  | .index _ _ => true

/-- An expression in which nothing is absent and all is spelled as what it is. -/
def Expr.Legible (e : Expr) : Prop := e.Throughout Expr.legibleOwn

instance (e : Expr) : Decidable e.Legible :=
  inferInstanceAs (Decidable (e.Throughout Expr.legibleOwn))

namespace Token

def isSpelled : Token → Bool
  | sign c => ['-', '+', '!', '~'].contains c
  | name n => isIdentifier n && !truthValues.contains n
  | literal text => isNumeral text || truthValues.contains text
  | callee n => isIdentifier n
  | field n => isIdentifier n
  | infixed op => !op.toList.contains ' '
  | _ => true

/-- Whether a token ends in a word, which must not go on behind it. -/
def endsInWord : Token → Bool
  | name _ => true
  | literal _ => true
  | field _ => true
  | _ => false

/-- Whether a token may stand right behind a word. -/
def endsWord : Token → Bool
  | field _ => true
  | closes => true
  | opensIndex => true
  | closesIndex => true
  | comma => true
  | infixed _ => true
  | _ => false

/-- Tokens that are spelled as such, with an end behind every word. -/
def Chained : List Token → Prop
  | [] => True
  | t :: ts =>
    t.isSpelled = true ∧ (t.endsInWord = true → ts.head?.all endsWord = true) ∧ Chained ts

/-! ### Scanning -/

/-- The numeral that a text starts with, and what is behind it. -/
def splitNumeral : List Char → List Char × List Char
  | [] => ([], [])
  | c :: cs =>
    if continuesNumeral c cs then (c :: (splitNumeral cs).1, (splitNumeral cs).2) else ([], c :: cs)

/-- The token that a word is with this text behind it. -/
def ofWord (word : String) : List Char → Token × List Char
  | '(' :: cs => (callee word, cs)
  | cs => (if truthValues.contains word then literal word else name word, cs)

/-- The token that a text starts with, and what is behind it. -/
def scan : List Char → Token × List Char
  | '(' :: cs => (opens, cs)
  | ')' :: cs => (closes, cs)
  | '[' :: cs => (opensIndex, cs)
  | ']' :: cs => (closesIndex, cs)
  | ',' :: cs => (comma, cs.tail)
  | ' ' :: cs => (infixed (String.ofList (cs.takeWhile (· ≠ ' '))), (cs.dropWhile (· ≠ ' ')).tail)
  | '-' :: cs => (sign '-', cs)
  | '+' :: cs => (sign '+', cs)
  | '!' :: cs => (sign '!', cs)
  | '~' :: cs => (sign '~', cs)
  | '.' :: cs =>
    if startsName cs then (field (String.ofList (cs.takeWhile isWordChar)), cs.dropWhile isWordChar)
    else (literal (String.ofList (splitNumeral ('.' :: cs)).1), (splitNumeral ('.' :: cs)).2)
  | cs =>
    if startsName cs then ofWord (String.ofList (cs.takeWhile isWordChar)) (cs.dropWhile isWordChar)
    else (literal (String.ofList (splitNumeral cs).1), (splitNumeral cs).2)

/-- Where a word or a numeral ends, and no arguments start. -/
def atEnd : List Char → Bool
  | [] => true
  | c :: cs => !continuesNumeral c cs && c != '('

lemma startsName_append {cs rest : List Char} (h : startsName rest = false) :
    startsName (cs ++ rest) = startsName cs := by
  cases cs with
  | nil => simpa [startsName] using h
  | cons c cs => rfl

lemma not_word_of_atEnd {rest : List Char} (h : atEnd rest = true) :
    rest.head?.any isWordChar = false := by
  cases rest with
  | nil => rfl
  | cons c cs =>
    simp only [atEnd, continuesNumeral, Bool.and_eq_true, Bool.not_eq_true',
      Bool.or_eq_false_iff] at h
    simpa using h.1.1.1.1

lemma startsName_of_not_word {rest : List Char} (h : rest.head?.any isWordChar = false) :
    startsName rest = false := by
  cases rest with
  | nil => rfl
  | cons c cs =>
    have hc : isWordChar c = false := by simpa using h
    simp [startsName, hc]

lemma splitNumeral_append {cs rest : List Char} (h : continuesToEnd cs = true)
    (hrest : atEnd rest = true) : splitNumeral (cs ++ rest) = (cs, rest) := by
  induction cs with
  | nil =>
    cases rest with
    | nil => rfl
    | cons c rest =>
      simp only [atEnd, Bool.and_eq_true, Bool.not_eq_true'] at hrest
      rw [List.nil_append, splitNumeral, hrest.1, if_neg Bool.false_ne_true]
  | cons c cs ih =>
    rw [continuesToEnd, Bool.and_eq_true] at h
    have hc : continuesNumeral c (cs ++ rest) = true := by
      rw [continuesNumeral, startsName_append (startsName_of_not_word (not_word_of_atEnd hrest))]
      exact h.1
    rw [List.cons_append, splitNumeral, if_pos hc, ih h.2]

lemma span_word {w rest : List Char} (hw : ∀ c ∈ w, isWordChar c = true)
    (hrest : rest.head?.any isWordChar = false) :
    (w ++ rest).takeWhile isWordChar = w ∧ (w ++ rest).dropWhile isWordChar = rest := by
  rw [List.takeWhile_append_of_pos hw, List.dropWhile_append_of_pos hw]
  cases rest with
  | nil => simp
  | cons c rest =>
    have hc : ¬isWordChar c = true := by simpa using hrest
    rw [List.takeWhile_cons_of_neg hc, List.dropWhile_cons_of_neg hc, List.append_nil]
    exact ⟨rfl, rfl⟩

/-- What starts with a character of a word is a word or a numeral. -/
lemma scan_cons {c : Char} {cs : List Char} (hc : isWordChar c = true) :
    scan (c :: cs) =
      if startsName (c :: cs) then
        ofWord (String.ofList ((c :: cs).takeWhile isWordChar)) ((c :: cs).dropWhile isWordChar)
      else (literal (String.ofList (splitNumeral (c :: cs)).1), (splitNumeral (c :: cs)).2) := by
  unfold scan
  split
  all_goals first
    | rfl
    | rename_i heq
      obtain ⟨rfl, rfl⟩ := List.cons.inj heq
      exact absurd hc (by decide)

lemma exists_cons_of_isIdentifier {n : String} (h : isIdentifier n = true) :
    ∃ c cs, n.toList = c :: cs ∧ isWordChar c = true ∧ c.isDigit = false := by
  have hword := isWord_of_isIdentifier h
  rcases hn : n.toList with _ | ⟨c, cs⟩
  · exact absurd hn hword.1
  · have hc : isWordChar c = true := hword.word c (by simp [hn])
    simp [isIdentifier, hn] at h
    exact ⟨c, cs, rfl, hc, h.2⟩

lemma startsName_of_isIdentifier {n : String} (h : isIdentifier n = true) (rest : List Char) :
    startsName (n.toList ++ rest) = true := by
  obtain ⟨c, cs, hn, hc, hdigit⟩ := exists_cons_of_isIdentifier h
  simp [startsName, hn, hc, hdigit]

lemma scan_identifier {n : String} (h : isIdentifier n = true) {rest : List Char}
    (hrest : rest.head?.any isWordChar = false) : scan (n.toList ++ rest) = ofWord n rest := by
  obtain ⟨htake, hdrop⟩ := span_word (isWord_of_isIdentifier h).word hrest
  have hstarts := startsName_of_isIdentifier h rest
  obtain ⟨c, cs, hn, hc, -⟩ := exists_cons_of_isIdentifier h
  rw [hn, List.cons_append] at htake hdrop hstarts ⊢
  rw [scan_cons hc, if_pos hstarts, htake, hdrop, ← hn, String.ofList_toList]

lemma ofWord_of_atEnd (word : String) {rest : List Char} (h : atEnd rest = true) :
    ofWord word rest = (if truthValues.contains word then literal word else name word, rest) := by
  unfold ofWord
  split
  · simp [atEnd] at h
  · rfl

lemma scan_numeral {text : String} (h : isNumeral text = true) {rest : List Char}
    (hrest : atEnd rest = true) : scan (text.toList ++ rest) = (literal text, rest) := by
  rw [isNumeral, Bool.and_eq_true] at h
  have hsplit := splitNumeral_append h.2 hrest
  have hdigit : ∀ {cs : List Char}, cs.head?.any Char.isDigit = true →
      ∃ c ds, cs = c :: ds ∧ isWordChar c = true ∧ startsName (cs ++ rest) = false := by
    intro cs hcs
    cases cs with
    | nil => cases hcs
    | cons c ds =>
      have hc : c.isDigit = true := by simpa using hcs
      refine ⟨c, ds, rfl, ?_, by simp [startsName, hc]⟩
      simp [isWordChar, Char.isAlphanum, hc]
  have hstart := h.1
  split at hstart
  · rename_i cs htext
    obtain ⟨-, -, -, -, hname⟩ := hdigit hstart
    rw [htext, List.cons_append] at hsplit ⊢
    rw [scan, if_neg (by simp [hname]), hsplit, ← htext, String.ofList_toList]
  · obtain ⟨c, ds, htext, hc, hname⟩ := hdigit hstart
    rw [htext, List.cons_append] at hsplit hname ⊢
    rw [scan_cons hc, if_neg (by simp [hname]), hsplit, ← htext, String.ofList_toList]

lemma scan_append {t : Token} (ht : t.isSpelled = true) {rest : List Char}
    (hrest : t.endsInWord = true → atEnd rest = true) : scan (t.chars ++ rest) = (t, rest) := by
  cases t with
  | sign c =>
    have hc : c = '-' ∨ c = '+' ∨ c = '!' ∨ c = '~' := by simpa [isSpelled] using ht
    rcases hc with rfl | rfl | rfl | rfl <;> rfl
  | name n =>
    simp only [isSpelled, Bool.and_eq_true, Bool.not_eq_true'] at ht
    rw [chars, scan_identifier ht.1 (not_word_of_atEnd (hrest rfl)), ofWord_of_atEnd n (hrest rfl),
      ht.2, if_neg Bool.false_ne_true]
  | literal text =>
    rw [isSpelled, Bool.or_eq_true] at ht
    rcases ht with ht | ht
    · exact scan_numeral ht (hrest rfl)
    · have htext : ∀ text ∈ truthValues, isIdentifier text = true := by decide
      rw [chars, scan_identifier (htext text (by simpa using ht)) (not_word_of_atEnd (hrest rfl)),
        ofWord_of_atEnd text (hrest rfl), if_pos ht]
  | callee n =>
    rw [chars, List.append_assoc, scan_identifier ht rfl]
    rfl
  | field n =>
    obtain ⟨htake, hdrop⟩ :=
      span_word (isWord_of_isIdentifier ht).word (not_word_of_atEnd (hrest rfl))
    rw [chars, List.cons_append, scan, if_pos (startsName_of_isIdentifier ht rest), htake, hdrop,
      String.ofList_toList]
  | infixed op =>
    have hop : ∀ c ∈ op.toList, decide (c ≠ ' ') = true := by
      intro c hc
      rw [decide_eq_true_eq]
      rintro rfl
      simp [isSpelled, hc] at ht
    rw [chars, List.cons_append, List.append_assoc, scan, List.takeWhile_append_of_pos hop,
      List.dropWhile_append_of_pos hop]
    simp
  | opens => rfl
  | closes => rfl
  | opensIndex => rfl
  | closesIndex => rfl
  | comma => rfl

lemma chars_ne_nil {t : Token} (ht : t.isSpelled = true) : t.chars ≠ [] := by
  cases t with
  | name n =>
    rw [isSpelled, Bool.and_eq_true] at ht
    exact (isWord_of_isIdentifier ht.1).1
  | literal text =>
    intro hnil
    have htext : text = "" := by simpa [chars] using hnil
    subst htext
    exact absurd ht (by decide)
  | _ => simp [chars]

lemma atEnd_of_endsWord {t : Token} (ht : t.isSpelled = true) (hends : t.endsWord = true)
    (rest : List Char) : atEnd (t.chars ++ rest) = true := by
  cases t with
  | field n =>
    have hstarts := startsName_of_isIdentifier ht rest
    rw [chars, List.cons_append, atEnd, continuesNumeral, hstarts]
    rfl
  | closes => rfl
  | opensIndex => rfl
  | closesIndex => rfl
  | comma => rfl
  | infixed op => rfl
  | _ => cases hends

lemma Chained.ext {ts ts' : List Token} (h : Chained ts) (h' : Chained ts')
    (htext : ts.flatMap chars = ts'.flatMap chars) : ts = ts' := by
  have hscan : ∀ {t ts}, Chained (t :: ts) →
      scan ((t :: ts).flatMap chars) = (t, ts.flatMap chars) := by
    rintro t ts ⟨ht, hend, hts⟩
    refine scan_append ht fun hword => ?_
    cases ts with
    | nil => rfl
    | cons t' ts => exact atEnd_of_endsWord hts.1 (by simpa using hend hword) _
  induction ts generalizing ts' with
  | nil =>
    cases ts' with
    | nil => rfl
    | cons t' ts' => simp [chars_ne_nil h'.1] at htext
  | cons t ts ih =>
    cases ts' with
    | nil => simp [chars_ne_nil h.1] at htext
    | cons t' ts' =>
      obtain ⟨rfl, hrest⟩ := Prod.mk.inj ((hscan h).symm.trans (htext ▸ hscan h'))
      rw [ih h.2.2 h'.2.2 hrest]

end Token

/-! ### The tokens of an expression -/

open Token (Chained)

lemma chained_signs {cs : List Char} (h : (cs.all fun c => (Token.sign c).isSpelled) = true)
    {rest : List Token} (hrest : Chained rest) : Chained (cs.map Token.sign ++ rest) := by
  induction cs with
  | nil => exact hrest
  | cons c cs ih =>
    rw [List.all_cons, Bool.and_eq_true] at h
    exact ⟨h.1, nofun, ih h.2⟩

lemma chained_tokensBehind {args : List Expr} {rest : List Token} (hrest : Chained rest)
    (hend : rest.head?.all Token.endsWord = true)
    (h : ∀ arg ∈ args, ∀ {rest : List Token}, Chained rest →
      rest.head?.all Token.endsWord = true → Chained (arg.tokens ++ rest)) :
    Chained (Expr.tokensBehind args ++ rest) ∧
      (Expr.tokensBehind args ++ rest).head?.all Token.endsWord = true := by
  induction args with
  | nil =>
    rw [Expr.tokensBehind]
    exact ⟨hrest, hend⟩
  | cons arg args ih =>
    obtain ⟨hbehind, hend'⟩ := ih fun arg' harg' => h arg' (List.mem_cons_of_mem _ harg')
    rw [Expr.tokensBehind, List.cons_append, List.append_assoc]
    exact ⟨⟨rfl, nofun, h arg List.mem_cons_self hbehind hend'⟩, rfl⟩

lemma Expr.Legible.chained {e : Expr} (h : e.Legible) {rest : List Token}
    (hrest : Chained rest) (hend : rest.head?.all Token.endsWord = true) :
    Chained (e.tokens ++ rest) := by
  induction e using Expr.inductOn generalizing rest with
  | absent => exact absurd ((throughout_leaf rfl).mp h) (by decide)
  | ident name ref => exact ⟨(throughout_leaf rfl).mp h, fun _ => hend, hrest⟩
  | literal text kind => exact ⟨(throughout_leaf rfl).mp h, fun _ => hend, hrest⟩
  | call callee args ih =>
    obtain ⟨hcallee, hargs⟩ := throughout_call.mp h
    have hclosed : Chained (.closes :: rest) := ⟨rfl, nofun, hrest⟩
    cases args with
    | nil =>
      rw [tokens]
      exact ⟨hcallee, nofun, hclosed⟩
    | cons arg args =>
      obtain ⟨hbehind, hend'⟩ := chained_tokensBehind hclosed rfl fun arg' harg' rest =>
        ih arg' (List.mem_cons_of_mem _ harg') (hargs arg' (List.mem_cons_of_mem _ harg'))
      simp only [tokens, List.cons_append, List.append_assoc, List.nil_append]
      exact ⟨hcallee, nofun, ih arg List.mem_cons_self (hargs arg List.mem_cons_self) hbehind hend'⟩
  | binary op x y hx hy =>
    obtain ⟨hop, hxs, hys⟩ := throughout_binary.mp h
    have hinfixed : ∀ op ∈ binaryOperators, (Token.infixed op).isSpelled = true := by decide
    have hclosed : Chained (.closes :: rest) := ⟨rfl, nofun, hrest⟩
    have hright : Chained (.infixed op :: (y.tokens ++ .closes :: rest)) :=
      ⟨hinfixed op (List.contains_iff_mem.mp hop), nofun, hy hys hclosed rfl⟩
    simp only [tokens, List.cons_append, List.append_assoc, List.nil_append]
    exact ⟨rfl, nofun, hx hxs hright rfl⟩
  | unary op x hx =>
    obtain ⟨hop, hxs⟩ := throughout_unary.mp h
    have hsigns : ∀ op ∈ unaryOperators,
        (op.toList.all fun c => (Token.sign c).isSpelled) = true := by decide
    rw [tokens, List.append_assoc]
    exact chained_signs (hsigns op (List.contains_iff_mem.mp hop)) (hx hxs hrest hend)
  | assign op lhs rhs hl hr =>
    obtain ⟨hop, hls, hrs⟩ := throughout_assign.mp h
    have hinfixed : ∀ op ∈ assignmentOperators, (Token.infixed op).isSpelled = true := by decide
    rw [tokens, List.append_assoc]
    exact hl hls ⟨hinfixed op (List.contains_iff_mem.mp hop), nofun, hr hrs hrest hend⟩ rfl
  | member x field hx =>
    obtain ⟨hfield, hxs⟩ := throughout_member.mp h
    rw [tokens, List.append_assoc]
    exact hx hxs ⟨hfield, fun _ => hend, hrest⟩ rfl
  | index x i hx hi =>
    obtain ⟨-, hxs, his⟩ := throughout_index.mp h
    have hclosed : Chained (.closesIndex :: rest) := ⟨rfl, nofun, hrest⟩
    simp only [tokens, List.cons_append, List.append_assoc, List.nil_append]
    exact hx hxs ⟨rfl, nofun, hi his hclosed rfl⟩ rfl

end Shaderwright
