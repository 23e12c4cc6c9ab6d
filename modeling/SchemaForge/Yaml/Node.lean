import SchemaForge.Logged
import SchemaForge.Yaml.Lexer
import SchemaForge.Yaml.Scalar

/-!
# Nodes of a YAML document

A document is a tree of scalars, sequences and mappings, each with a tag. An alias stands for the
node of its anchor.

* `Node`: the trees.
* `Node.read?`: the tree in a text, if the text is one document.
-/

namespace SchemaForge.Yaml

/-- A node with its tag and the place where it begins. -/
inductive Node where
  | scalar (tag : String) (mark : Mark) (text : String)
  | sequence (tag : String) (mark : Mark) (items : List Node)
  | mapping (tag : String) (mark : Mark) (entries : List (Node × Node))
  deriving Repr, Inhabited

namespace Node

/-- The tag of a node. -/
def tag : Node → String
  | .scalar tag .. | .sequence tag .. | .mapping tag .. => tag

/-- The place where a node begins. -/
def mark : Node → Mark
  | .scalar _ mark _ | .sequence _ mark _ | .mapping _ mark _ => mark

/-- The name of a kind of node in the text of a problem. -/
def kindName : Node → String
  | .scalar .. => "scalar"
  | .sequence .. => "sequence"
  | .mapping .. => "mapping"

end Node

/-- Why a text has no value. -/
inductive Refusal where
  | character (c : Char) (position : Nat)
  | problem (p : Problem)
  | fault (f : Fault)
  deriving Repr, Inhabited

/-- An anchor: where it stands, and its node when that is complete. -/
structure Anchor where
  mark : Mark
  node : Option Node
  deriving Repr, Inhabited

/-- A document on its way to nodes. -/
structure Reader where
  lexer : Lexer
  anchors : List (String × Anchor) := []
  /-- What stands for the handles of tags. -/
  handles : List (String × String) := []
  deriving Repr, Inhabited

/-- Reads nodes, or refuses the text. -/
abbrev Reading (α : Type) : Type := StateT Reader (Except Refusal) α

namespace Reading

/-! ## Tokens -/

/-- A step of the lexer. -/
def lex {α : Type} (x : Lex α) : Reading α := do
  let r ← get
  match x.run r.lexer with
  | .ok (a, lexer) =>
    set { r with lexer }
    return a
  | .error p => throw (.problem p)

/-- The next token, which stays. -/
def peek : Reading Token := lex Lexer.peek

/-- Takes the next token. -/
def next : Reading Token := lex Lexer.next

/-- Whether the next token is of one of some kinds. -/
def isNext (kinds : List TokenKind) : Reading Bool := do return kinds.contains (← peek).kind

/-- A problem with two places, or one. -/
def fail {α : Type} (context : Option (String × Mark)) (problem : String) (mark : Mark) :
    Reading α :=
  throw (.problem { context := context.map (·.1), contextMark := context.map (·.2), problem, mark })

/-- A problem with the next token, of which something else was expected. -/
def unexpected {α : Type} (context : Option (String × Mark)) (expected : String) : Reading α := do
  let t ← peek
  fail context ("expected " ++ expected ++ Text.inspect t.kind.name) t.first

/-! ## Properties -/

/-- What stands before the content of a node. -/
structure Properties where
  anchor : Option String := none
  tag : Option (Option String × String) := none
  /-- The place of the first property. -/
  start : Option Mark := none
  /-- The place of the tag. -/
  tagMark : Mark := {}
  deriving Repr, Inhabited

/-- An anchor after a tag, or nothing. -/
def anchorAfter (p : Properties) : Reading Properties := do
  match (← peek).kind with
  | .anchor name =>
    let _ ← next
    return { p with anchor := some name }
  | _ => return p

/-- A tag after an anchor, or nothing. -/
def tagAfter (p : Properties) : Reading Properties := do
  let t ← peek
  match t.kind with
  | .tag handle text =>
    let _ ← next
    return { p with tag := some (handle, text), tagMark := t.first }
  | _ => return p

/-- An anchor and a tag in either order, either or neither. -/
def properties : Reading Properties := do
  let t ← peek
  match t.kind with
  | .anchor name =>
    let _ ← next
    tagAfter { anchor := some name, start := some t.first }
  | .tag handle text =>
    let _ ← next
    anchorAfter { tag := some (handle, text), start := some t.first, tagMark := t.first }
  | _ => return {}

/-- The whole tag of a node, with the text that its handle stands for. -/
def wholeTag (p : Properties) : Reading (Option String) := do
  match p.tag with
  | none => return none
  | some (none, text) => return some text
  | some (some handle, text) =>
    match (← get).handles.lookup handle with
    | some start => return some (start ++ text)
    | none =>
      fail (p.start.map ("while parsing a node", ·))
        ("found undefined tag handle " ++ Text.inspect handle) p.tagMark

/-- Remembers an anchor whose node is not complete. An anchor stands for one node only. -/
def openAnchor (anchor : Option String) (mark : Mark) : Reading Unit := do
  match anchor with
  | none => return ()
  | some name =>
    match (← get).anchors.lookup name with
    | some a =>
      fail (some ("found duplicate anchor " ++ Text.inspect name ++ "; first occurrence", a.mark))
        "second occurrence" mark
    | none => modify fun r => { r with anchors := (name, { mark, node := none }) :: r.anchors }

/-- Completes an anchor with its node. -/
def closeAnchor (anchor : Option String) (node : Node) : Reading Node := do
  match anchor with
  | none => return node
  | some name =>
    modify fun r =>
      { r with anchors := (name, { mark := node.mark, node := some node }) :: r.anchors }
    return node

/-- The node of an anchor. Inside itself it has none. -/
def aliased (name : String) (mark : Mark) : Reading Node := do
  match (← get).anchors.lookup name with
  | some { node := some node, .. } => return node
  | some { node := none, .. } => throw (.fault .endless)
  | none => fail none ("found undefined alias " ++ Text.inspect name) mark

/-! ## Scalars -/

/-- The tag of a scalar. Without a tag of its own a plain one is told by its spelling and any other
is a text; a tag of a single exclamation mark asks for the spelling too. -/
def scalarTag (tag : Option String) (plain : Bool) (text : String) : String :=
  match tag with
  | none => if plain then Tag.ofPlain text else Tag.core "str"
  | some tag => if tag == "!" then Tag.ofPlain text else tag

/-- The tag of a collection. -/
def collectionTag (tag : Option String) (name : String) : String :=
  match tag with
  | none => Tag.core name
  | some tag => if tag == "!" then Tag.core name else tag

/-- The node where nothing is written. -/
def nothing (mark : Mark) : Node := .scalar (Tag.ofPlain "") mark ""

/-! ## Nodes -/

/-- Where a node stands: in a block, after a key or a colon in a block, or between brackets. -/
inductive Slot where
  | block
  | blockValue
  | flow
  deriving DecidableEq, Repr, Inhabited

mutual

/-- A node. -/
def node (slot : Slot) : Nat → Reading Node
  | 0 => throw (.fault .endless)
  | fuel + 1 => do
    let first ← peek
    match first.kind with
    | .reference name =>
      let _ ← next
      aliased name first.first
    | _ =>
      let p ← properties
      let tag ← wholeTag p
      let t ← peek
      let mark := p.start.getD t.first
      if slot == .blockValue && t.kind == .entry then
        openAnchor p.anchor mark
        let items ← looseItems fuel
        closeAnchor p.anchor (.sequence (collectionTag tag "seq") mark items)
      else
        match t.kind with
        | .scalar text plain =>
          let _ ← next
          openAnchor p.anchor mark
          closeAnchor p.anchor (.scalar (scalarTag tag plain text) mark text)
        | .flowSequenceStart =>
          openAnchor p.anchor mark
          let _ ← next
          let items ← flowItems t.first true fuel
          closeAnchor p.anchor (.sequence (collectionTag tag "seq") mark items)
        | .flowMappingStart =>
          openAnchor p.anchor mark
          let _ ← next
          let entries ← flowEntries t.first true fuel
          closeAnchor p.anchor (.mapping (collectionTag tag "map") mark entries)
        | kind =>
          if slot != .flow && kind == .blockSequenceStart then
            openAnchor p.anchor mark
            let _ ← next
            let items ← blockItems t.first fuel
            closeAnchor p.anchor (.sequence (collectionTag tag "seq") mark items)
          else if slot != .flow && kind == .blockMappingStart then
            openAnchor p.anchor mark
            let _ ← next
            let entries ← blockEntries t.first fuel
            closeAnchor p.anchor (.mapping (collectionTag tag "map") mark entries)
          else if p.start.isSome then
            openAnchor p.anchor mark
            closeAnchor p.anchor (.scalar (scalarTag tag true "") mark "")
          else
            let name := if slot == .flow then "flow" else "block"
            unexpected (some ("while parsing a " ++ name ++ " node", mark))
              "the node content, but found "

/-- A node, or nothing where one of some tokens follows. -/
def nodeUnless (ends : List TokenKind) (slot : Slot) (mark : Mark) : Nat → Reading Node
  | 0 => throw (.fault .endless)
  | fuel + 1 => do
    if ← isNext ends then return nothing mark else node slot fuel

/-- The value of a key: what follows a colon, or nothing. -/
def valueUnless (ends : List TokenKind) (slot : Slot) : Nat → Reading Node
  | 0 => throw (.fault .endless)
  | fuel + 1 => do
    let t ← peek
    if t.kind == .value then
      let _ ← next
      nodeUnless ends slot t.last fuel
    else return nothing t.first

/-- The items of a block sequence. -/
def blockItems (start : Mark) : Nat → Reading (List Node)
  | 0 => throw (.fault .endless)
  | fuel + 1 => do
    let t ← peek
    if t.kind == .entry then
      let _ ← next
      let item ← nodeUnless [.entry, .blockEnd] .block t.last fuel
      return item :: (← blockItems start fuel)
    else if t.kind == .blockEnd then
      let _ ← next
      return []
    else
      unexpected (some ("while parsing a block collection", start)) "<block end>, but found "

/-- The items of a sequence that is not indented from its key. -/
def looseItems : Nat → Reading (List Node)
  | 0 => throw (.fault .endless)
  | fuel + 1 => do
    let t ← peek
    if t.kind == .entry then
      let _ ← next
      let item ← nodeUnless [.entry, .key, .value, .blockEnd] .block t.last fuel
      return item :: (← looseItems fuel)
    else return []

/-- The entries of a block mapping. -/
def blockEntries (start : Mark) : Nat → Reading (List (Node × Node))
  | 0 => throw (.fault .endless)
  | fuel + 1 => do
    let t ← peek
    if t.kind == .key then
      let _ ← next
      let key ← nodeUnless [.key, .value, .blockEnd] .blockValue t.last fuel
      let value ← valueUnless [.key, .value, .blockEnd] .blockValue fuel
      return (key, value) :: (← blockEntries start fuel)
    else if t.kind == .blockEnd then
      let _ ← next
      return []
    else
      unexpected (some ("while parsing a block mapping", start)) "<block end>, but found "

/-- The items of a sequence in brackets. A key among them is a mapping of one entry. -/
def flowItems (start : Mark) (isFirst : Bool) : Nat → Reading (List Node)
  | 0 => throw (.fault .endless)
  | fuel + 1 => do
    if ← isNext [.flowSequenceEnd] then
      let _ ← next
      return []
    else
      if !isFirst then
        if ← isNext [.flowEntry] then
          let _ ← next
        else
          let t ← peek
          fail (some ("while parsing a flow sequence", start))
            ("expected ',' or ']', but got " ++ Text.inspect t.kind.name) t.first
      let t ← peek
      if t.kind == .key then
        let _ ← next
        let key ← nodeUnless [.value, .flowEntry, .flowSequenceEnd] .flow t.last fuel
        let value ← valueUnless [.flowEntry, .flowSequenceEnd] .flow fuel
        let item := Node.mapping (Tag.core "map") t.first [(key, value)]
        return item :: (← flowItems start false fuel)
      else if t.kind == .flowSequenceEnd then
        let _ ← next
        return []
      else
        let item ← node .flow fuel
        return item :: (← flowItems start false fuel)

/-- The entries of a mapping in braces. -/
def flowEntries (start : Mark) (isFirst : Bool) : Nat → Reading (List (Node × Node))
  | 0 => throw (.fault .endless)
  | fuel + 1 => do
    if ← isNext [.flowMappingEnd] then
      let _ ← next
      return []
    else
      if !isFirst then
        if ← isNext [.flowEntry] then
          let _ ← next
        else
          let t ← peek
          fail (some ("while parsing a flow mapping", start))
            ("expected ',' or '\x7d', but got " ++ Text.inspect t.kind.name) t.first
      let t ← peek
      if t.kind == .key then
        let _ ← next
        let key ← nodeUnless [.value, .flowEntry, .flowMappingEnd] .flow t.last fuel
        let value ← valueUnless [.flowEntry, .flowMappingEnd] .flow fuel
        return (key, value) :: (← flowEntries start false fuel)
      else if t.kind == .flowMappingEnd then
        let _ ← next
        return []
      else
        let key ← node .flow fuel
        let value := nothing (← peek).first
        return (key, value) :: (← flowEntries start false fuel)

end

/-! ## Documents -/

/-- The handles of tags that need no directive. -/
def standardHandles : List (String × String) := [("!", "!"), ("!!", Tag.core "")]

/-- Passes over the marks of a document's end. -/
def skipDocumentEnds : Nat → Reading Unit
  | 0 => return ()
  | fuel + 1 => do
    if ← isNext [.documentEnd] then
      let _ ← next
      skipDocumentEnds fuel

/-- The directives before a document: whether a version is among them, and the handles of tags. -/
def directives (hasVersion : Bool) (handles : List (String × String)) :
    Nat → Reading (List (String × String))
  | 0 => return handles
  | fuel + 1 => do
    let t ← peek
    match t.kind with
    | .directive d =>
      let _ ← next
      match d with
      | .version major =>
        if hasVersion then fail none "found duplicate YAML directive" t.first
        else if major != 1 then
          fail none "found incompatible YAML document (version 1.* is required)" t.first
        else directives true handles fuel
      | .tag handle text =>
        if handles.any (·.1 == handle) then
          fail none ("duplicate tag handle " ++ Text.inspect handle) t.first
        else directives hasVersion (handles ++ [(handle, text)]) fuel
      | .other => directives hasVersion handles fuel
    | _ => return handles

/-- The start of a document with its directives. -/
def documentStart (fuel : Nat) : Reading Unit := do
  let own ← directives false [] fuel
  modify fun r => { r with handles := own ++ standardHandles }
  if ← isNext [.documentStart] then
    let _ ← next
  else unexpected none "'<document start>', but found "

/-- Whether a token is a directive. -/
def isDirective (k : TokenKind) : Bool :=
  match k with
  | .directive _ => true
  | _ => false

/-- The content of a document after its start. -/
def documentContent (fuel : Nat) : Reading Node := do
  let t ← peek
  if isDirective t.kind || [.documentStart, .documentEnd, .streamEnd].contains t.kind then
    return nothing t.first
  else node .block fuel

/-- The first document, if there is one. -/
def firstDocument (fuel : Nat) : Reading (Option Node) := do
  let t ← peek
  if isDirective t.kind || t.kind == .documentStart then
    documentStart fuel
    some <$> documentContent fuel
  else if t.kind == .streamEnd then return none
  else
    modify fun r => { r with handles := standardHandles }
    some <$> node .block fuel

/-- The only document, if there is one. No other may follow. -/
def onlyDocument (fuel : Nat) : Reading (Option Node) := do
  match ← firstDocument fuel with
  | none => return none
  | some document =>
    skipDocumentEnds fuel
    let t ← peek
    if t.kind == .streamEnd then return some document
    else
      documentStart fuel
      fail (some ("expected a single document in the stream", document.mark))
        "but found another document" t.first

end Reading

namespace Node

/-- The first character that a text may not hold, and its place. -/
def firstForbidden? (text : List Char) : Option (Char × Nat) :=
  (text.zipIdx).find? fun (c, _) => !isAllowed c

/-- The tree in a text, if the text is one document; an empty text has none. -/
def read? (text : List Char) : Except Refusal (Option Node) :=
  match firstForbidden? text with
  | some (c, position) => .error (.character c position)
  | none =>
    let start : Reader := { lexer := { cursor := { rest := text } } }
    match (Reading.onlyDocument (8 * text.length + 16)).run start with
    | .ok (document, _) => .ok document
    | .error e => .error e

end Node

end SchemaForge.Yaml
