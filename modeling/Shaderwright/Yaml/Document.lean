import Shaderwright.Yaml.Node
import Shaderwright.Yaml.Piece
import Shaderwright.Yaml.Token.Scan

/-!
Reading the nodes of a document. Block collections are told by the columns of their pieces, flow
collections by brackets and braces. A mapping holds a key at most once.
-/

namespace Shaderwright.Yaml

/-- A node and the pieces behind it. -/
abbrev Parse := Except ReadError (Node × List Piece)

namespace Token

def scalar (t : Token) : Scalar := if t.kind = .quoted then .string t.text else resolve t.text

def scalarNode (t : Token) : Node := .scalar ⟨t.source, t.margin⟩ t.scalar

def key? (t : Token) : Option Key :=
  if t.isScalar then some (.scalar t.scalar) else if t.kind = .merge then some .merge else none

/-- The text that tells a key from the others. -/
def keyName (t : Token) : String := if t.kind = .merge then "<<" else t.text

/-- A key stands on one line. Inside a flow collection the colon may stand on a later one. -/
def isOneLine (flow : Bool) (t : Token) : Bool :=
  let isBlank (c : Char) : Bool := c == ' ' || isBreak c
  let source := t.source.toList.dropWhile isBlank
  let source := if flow && t.kind = .plain && t.scalar matches .string _ then
      (source.reverse.dropWhile isBlank).reverse
    else source
  !source.any isBreak

end Token

structure MapDraft where
  origin : Origin
  /-- The keys that were followed by a colon. -/
  names : List String := []
  /-- The entries, in reverse. -/
  entries : Entries := []

namespace MapDraft

/-- The next key, which must not be there yet. -/
def key (d : MapDraft) (flow : Bool) (k : KeyPiece) : Except ReadError Key :=
  match k.name.key? with
  | some key =>
    if d.names.contains k.name.keyName then .error .malformed
    else if k.first.isOneLine flow then .ok key
    else .error .malformed
  | none => .error .malformed

def add (d : MapDraft) (comma : String) (first : Token) (key : Key) (value : Node) : MapDraft :=
  { d with
    origin.source := d.origin.source ++ comma ++ first.source ++ ":" ++ value.source
    entries := (key, value) :: d.entries }

def addPair (d : MapDraft) (comma : String) (k : KeyPiece) (key : Key) (value : Node) : MapDraft :=
  { d.add comma k.first key value with names := k.name.keyName :: d.names }

def finish (d : MapDraft) (close : String) : Node :=
  .map { d.origin with source := d.origin.source ++ close } d.entries.reverse

end MapDraft

structure ListDraft where
  origin : Origin
  items : List Node := []

namespace ListDraft

def add (d : ListDraft) (lead : String) (item : Node) : ListDraft :=
  ⟨{ d.origin with source := d.origin.source ++ lead ++ item.source }, item :: d.items⟩

def finish (d : ListDraft) (close : String) : Node :=
  .list { d.origin with source := d.origin.source ++ close } d.items.reverse

end ListDraft

def endsFlowEntry (pieces : List Piece) : Bool :=
  pieces.head?.any fun p => p.is .comma || p.is .closeMap

/-- Behind a pair there is nothing further right than its key, unless brackets go on. -/
def endsPair (flow : Bool) (column : Nat) (rest : List Piece) : Bool :=
  rest.head?.all fun p =>
    p.column ≤ column || (flow && (p.is .comma || p.is .closeList))

mutual

/-- Any node. The flag tells whether it is inside brackets or braces. -/
def anyNode : Nat → Bool → List Piece → Parse
  | 0, _, _ => .error .malformed
  | fuel + 1, flow, pieces =>
    match pieces with
    | [] => .error .malformed
    | .directive _ :: _ => .error .malformed
    | .token t :: rest =>
      match t.kind with
      | .plain => .ok (t.scalarNode, rest)
      | .quoted => .ok (t.scalarNode, rest)
      | .dash => blockList fuel flow t.column ⟨⟨"", t.margin⟩, []⟩ pieces
      | .openList => flowList fuel true ⟨⟨t.source, t.margin⟩, []⟩ rest
      | .openMap => flowMap fuel true ⟨⟨t.source, t.margin⟩, [], []⟩ rest
      | _ => .error .malformed
    | p :: _ => blockMap fuel flow p.column ⟨⟨"", p.first.margin⟩, [], []⟩ pieces
termination_by structural fuel => fuel

def flowList : Nat → Bool → ListDraft → List Piece → Parse
  | 0, _, _, _ => .error .malformed
  | fuel + 1, isFirst, d, pieces =>
    match pieces with
    | [] => .error .malformed
    | p :: rest =>
      if p.is .closeList then .ok (d.finish p.first.source, rest)
      else if p.is .comma then
        if isFirst then .error .malformed
        else
          match rest with
          | close :: behind =>
            if close.is .closeList then .ok (d.finish close.first.source, behind)
            else do
              let (item, rest) ← anyNode fuel true rest
              flowList fuel false (d.add p.first.source item) rest
          | [] => .error .malformed
      else if isFirst then do
        let (item, rest) ← anyNode fuel true pieces
        flowList fuel false (d.add "" item) rest
      else .error .malformed
termination_by structural fuel => fuel

def flowMap : Nat → Bool → MapDraft → List Piece → Parse
  | 0, _, _, _ => .error .malformed
  | fuel + 1, isFirst, d, pieces =>
    match pieces with
    | [] => .error .malformed
    | p :: rest =>
      if p.is .closeMap then .ok (d.finish p.first.source, rest)
      else if p.is .comma then flowEntry fuel p.first.source d rest
      else if isFirst then flowEntry fuel "" d pieces
      else .error .malformed
termination_by structural fuel => fuel

/-- An entry of a flow mapping, whose value may be left out, and those behind it. -/
def flowEntry : Nat → String → MapDraft → List Piece → Parse
  | 0, _, _, _ => .error .malformed
  | fuel + 1, comma, d, pieces =>
    match pieces with
    | [] => .error .malformed
    | .pair k value :: rest => do
      let key ← d.key true k
      flowMap fuel false (d.addPair comma k key value.scalarNode) rest
    | .key k :: rest => do
      let key ← d.key true k
      let (value, rest) ←
        if endsFlowEntry rest then .ok (.missing, rest) else anyNode fuel true rest
      flowMap fuel false (d.addPair comma k key value) rest
    | .token t :: rest =>
      if t.kind = .closeMap then .ok (d.finish t.source, rest)
      else
        match t.key? with
        | some key =>
          if endsFlowEntry rest then flowMap fuel false (d.add comma t key .missing) rest
          else .error .malformed
        | none => .error .malformed
    | .directive _ :: _ => .error .malformed
termination_by structural fuel => fuel

/-- The entries of a block mapping whose keys stand at `column`. -/
def blockMap : Nat → Bool → Nat → MapDraft → List Piece → Parse
  | 0, _, _, _, _ => .error .malformed
  | fuel + 1, flow, column, d, pieces => do
    let (d, rest) ← match pieces with
      | .pair k value :: rest =>
        let key ← d.key flow k
        if endsPair flow column rest then
          pure (d.addPair "" k key value.scalarNode, rest)
        else .error .malformed
      | .key k :: rest =>
        let key ← d.key flow k
        let (value, rest) ← blockValue fuel flow k.first rest
        pure (d.addPair "" k key value, rest)
      | _ => .error .malformed
    match rest with
    | [] => .ok (d.finish "", [])
    | p :: behind =>
      if p.column ≠ column then .ok (d.finish "", rest)
      else if flow && p.is .closeList then .ok (d.finish "", rest)
      else if p.is .closeMap then .ok (d.finish "", behind)
      else blockMap fuel flow column d rest
termination_by structural fuel => fuel

/-- The value behind the colon of a block mapping. It is left out if the next key or something
further left follows. -/
def blockValue : Nat → Bool → Token → List Piece → Parse
  | 0, _, _, _ => .error .malformed
  | fuel + 1, flow, key, pieces =>
    match pieces with
    | [] => .ok (.missing, [])
    | p :: _ =>
      if p.line = key.line && p.is .dash then .error .malformed
      else if p.line = key.line && p.column ≠ key.column && p.isEntry then .error .malformed
      else if p.column < key.column then .ok (.missing, pieces)
      else if p.column = key.column && (p.isEntry || p.is .openMap || p.is .closeMap) then
        .ok (.missing, pieces)
      else anyNode fuel flow pieces
termination_by structural fuel => fuel

def blockList : Nat → Bool → Nat → ListDraft → List Piece → Parse
  | 0, _, _, _, _ => .error .malformed
  | fuel + 1, flow, column, d, pieces =>
    match pieces with
    | .token t :: rest =>
      if t.kind = .dash && t.column = column then
        match rest with
        | [] => .ok ((d.add t.source .missing).finish "", [])
        | p :: _ =>
          if p.column < column || (p.column = column && p.is .dash) then
            blockList fuel flow column (d.add t.source .missing) rest
          else do
            let (item, rest) ← anyNode fuel flow rest
            blockList fuel flow column (d.add t.source item) rest
      else .ok (d.finish "", pieces)
    | _ => .ok (d.finish "", pieces)
termination_by structural fuel => fuel

end

/-- The pieces between the marks of a document. -/
def unmark (pieces : List Piece) : List Piece :=
  let body := match pieces with
    | p :: rest => if p.is .documentStart then rest else pieces
    | [] => []
  match body.getLast? with
  | some p => if p.is .documentEnd then body.dropLast else body
  | none => []

/-- The node of one document, if it holds anything. -/
def document (pieces : List Piece) : Except ReadError (Option Node) :=
  match unmark pieces with
  | [] => .ok none
  | [.directive _] => .ok none
  | body => do
    let (node, rest) ← anyNode (4 * body.length + 4) false body
    if rest.isEmpty then .ok (some node) else .error .malformed

/-- A node that stands for a value. -/
structure Document where
  node : Node
  value : Value

def documents (text : String) : Except ReadError (List Document) := do
  let nodes ← (← documentPieces (← tokens text)).mapM document
  (nodes.filterMap id).mapM fun node => return ⟨node, ← Value.ofNode node⟩

/-- The first document of a text, if there is one. All documents have to be well-formed. -/
def read (text : String) : Except ReadError (Option Document) :=
  (documents text).map List.head?

end Shaderwright.Yaml
