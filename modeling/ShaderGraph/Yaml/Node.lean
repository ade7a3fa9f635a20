import ShaderGraph.Yaml.Token

/-!
# Documents of YAML

A document is a node: a scalar, a sequence, a mapping, or a reference to a node with an anchor. The
nodes of a text are built from its tokens. Nothing is returned where the tokens break the grammar.

An anchor is known from the beginning of its node on, so a reference can stand inside of the node
that it means. Such a reference has no target.
-/

namespace ShaderGraph

namespace Yaml

/-- A node. -/
inductive Node where
  /-- A scalar with its tag, if it has one. It is plain or written in quotes or as a block. -/
  | scalar (tag : Option String) (plain : Bool) (content : String)
  | sequence (items : List Node)
  | mapping (entries : List (Node × Node))
  /-- A reference; no target for one inside of the node that it means. -/
  | reference (name : String) (target : Option Node)

/-- What stands where a node is left out. -/
def Node.absent : Node := .scalar none true ""

/-! ### Reading nodes -/

/-- A node with an anchor. -/
structure Anchored where
  name : String
  /-- The number of tokens from the node on, which tells it from others of the same name. -/
  place : Nat
  /-- The node once it is complete. -/
  node : Option Node

/-- What is left to read, and what has been named. -/
structure NodeState where
  tokens : List Token
  /-- The nodes with anchors, the latest first. -/
  anchors : List Anchored := []
  /-- The texts that handles of tags stand for. -/
  handles : List (String × String) := []

/-- Reading of nodes, which can fail. -/
abbrev NodeM := StateT NodeState Option

namespace NodeM

/-- The next token. -/
def peek : NodeM Token := do
  match (← get).tokens with
  | t :: _ => return t
  | [] => failure

/-- Goes past the next token. -/
def skip : NodeM Unit := modify fun s => { s with tokens := s.tokens.drop 1 }

/-- Goes past the next token if it is the given one. -/
def skipIf (t : Token) : NodeM Bool := do
  if (← peek) = t then
    skip
    return true
  else return false

/-- Whether the next token is one of some. -/
def isNext (ts : List Token) : NodeM Bool := return ts.contains (← peek)

/-- The node that a reference means. -/
def reference (name : String) : NodeM Node := do
  match (← get).anchors.find? (·.name == name) with
  | some a => return .reference name a.node
  | none => failure

/-- An anchor, if there is one. -/
def anchor : NodeM (Option String) := do
  match ← peek with
  | .anchor name =>
    skip
    return some name
  | _ => return none

/-- A tag, if there is one. Its handle must be known. -/
def tag : NodeM (Option String) := do
  match ← peek with
  | .tag "" suffix =>
    skip
    return some suffix
  | .tag handle suffix =>
    skip
    match (← get).handles.lookup handle with
    | some text => return some (text ++ suffix)
    | none => failure
  | _ => return none

/-- The anchor and the tag of a node, in either order. -/
def properties : NodeM (Option String × Option String) := do
  match ← anchor with
  | some name => return (some name, ← tag)
  | none =>
    match ← tag with
    | some text => return (← anchor, some text)
    | none => return (none, none)

/-- Reads the node of an anchor. The anchor is open until then, unless another one of the same name
comes first. -/
def anchored (name : Option String) (read : NodeM Node) : NodeM Node := do
  match name with
  | none => read
  | some name =>
    let place := (← get).tokens.length
    modify fun s => { s with anchors := ⟨name, place, none⟩ :: s.anchors }
    let node ← read
    modify fun s => { s with anchors := s.anchors.map fun a =>
      if a.name == name && a.place == place then { a with node := some node } else a }
    return node

end NodeM

/-- The text in front of the tags of the language. -/
def standardTags : String := "tag:yaml.org,2002:"

/-- The tag of a scalar in short form. The tag of one exclamation mark says nothing. -/
def shortTag (tag : Option String) : Option String :=
  match tag with
  | none => none
  | some tag =>
    if tag = "" || tag = "!" then none
    else if standardTags.toList.isPrefixOf tag.toList then
      some ("!!" ++ String.ofList (tag.toList.drop standardTags.length))
    else some tag

open NodeM

mutual

/-- A node. Only in a block may it be a block collection, and only as a part of a mapping may it be
a sequence whose items are not indented. -/
def readNode (block indentless : Bool) : Nat → NodeM Node
  | 0 => failure
  | fuel + 1 => do
    match ← peek with
    | .reference name =>
      skip
      reference name
    | _ =>
      let (name, tag) ← properties
      anchored name do
        let next ← peek
        if let .scalar plain content := next then
          skip
          return .scalar (shortTag tag) plain content
        else if next = .flowSequenceStart then
          skip
          return .sequence (← readFlowItems true fuel)
        else if next = .flowMappingStart then
          skip
          return .mapping (← readFlowEntries true fuel)
        else if indentless && next = .blockEntry then
          return .sequence (← readItems true fuel)
        else if block && next = .blockSequenceStart then
          skip
          return .sequence (← readItems false fuel)
        else if block && next = .blockMappingStart then
          skip
          return .mapping (← readEntries fuel)
        else if name.isSome || tag.isSome then
          return .scalar (shortTag tag) true ""
        else failure

/-- A node, or what stands for it if one of some tokens is next. -/
def readNodeUnless (ts : List Token) (block indentless : Bool) : Nat → NodeM Node
  | 0 => failure
  | fuel + 1 => do
    if ← isNext ts then return .absent else readNode block indentless fuel

/-- The items of a block sequence. If they are not indented, any other token ends them. -/
def readItems (indentless : Bool) : Nat → NodeM (List Node)
  | 0 => failure
  | fuel + 1 => do
    if ← skipIf .blockEntry then
      let ends := if indentless then [.blockEntry, .key, .value, .blockEnd]
        else [.blockEntry, .blockEnd]
      let item ← readNodeUnless ends true false fuel
      return item :: (← readItems indentless fuel)
    else if indentless then return []
    else if ← skipIf .blockEnd then return []
    else failure

/-- The entries of a block mapping. -/
def readEntries : Nat → NodeM (List (Node × Node))
  | 0 => failure
  | fuel + 1 => do
    if ← skipIf .key then
      let ends : List Token := [.key, .value, .blockEnd]
      let key ← readNodeUnless ends true true fuel
      let value ← if ← skipIf .value then readNodeUnless ends true true fuel else pure .absent
      return (key, value) :: (← readEntries fuel)
    else if ← skipIf .blockEnd then return []
    else failure

/-- The items of a flow sequence. An item with a key is a mapping of one entry. -/
def readFlowItems (first : Bool) : Nat → NodeM (List Node)
  | 0 => failure
  | fuel + 1 => do
    if ← skipIf .flowSequenceEnd then return []
    if !first then
      if !(← skipIf .flowEntry) then failure
    if ← skipIf .flowSequenceEnd then return []
    if ← skipIf .key then
      let key ← readPairKey fuel
      let value ←
        if ← skipIf .value then readNodeUnless [.flowEntry, .flowSequenceEnd] false false fuel
        else pure .absent
      return .mapping [(key, value)] :: (← readFlowItems false fuel)
    else
      let item ← readNode false false fuel
      return item :: (← readFlowItems false fuel)

/-- The key of an item of a flow sequence. A token in its place that ends it is left out. -/
def readPairKey : Nat → NodeM Node
  | 0 => failure
  | fuel + 1 => do
    if ← isNext [.value, .flowEntry, .flowSequenceEnd] then
      skip
      return .absent
    else readNode false false fuel

/-- The entries of a flow mapping. An item without a mark of a key has no value. -/
def readFlowEntries (first : Bool) : Nat → NodeM (List (Node × Node))
  | 0 => failure
  | fuel + 1 => do
    if ← skipIf .flowMappingEnd then return []
    if !first then
      if !(← skipIf .flowEntry) then failure
    if ← skipIf .flowMappingEnd then return []
    if ← skipIf .key then
      let key ← readNodeUnless [.value, .flowEntry, .flowMappingEnd] false false fuel
      let value ←
        if ← skipIf .value then readNodeUnless [.flowEntry, .flowMappingEnd] false false fuel
        else pure .absent
      return (key, value) :: (← readFlowEntries false fuel)
    else
      let key ← readNode false false fuel
      return (key, .absent) :: (← readFlowEntries false fuel)

end

/-! ### Reading documents -/

/-- The version of the language that documents may ask for. -/
def knownVersion : Nat × Nat := (1, 1)

/-- The directives of a document: the version and each handle at most once. -/
def readDirectives (versioned : Bool) : Nat → NodeM Unit
  | 0 => failure
  | fuel + 1 => do
    match ← peek with
    | .version major minor =>
      if versioned || (major, minor) ≠ knownVersion then failure
      skip
      readDirectives true fuel
    | .tagHandle handle text =>
      if ((← get).handles.lookup handle).isSome then failure
      skip
      modify fun s => { s with handles := s.handles ++ [(handle, text)] }
      readDirectives versioned fuel
    | _ => return

/-- The handles that need no directive. -/
def standardHandles : List (String × String) := [("!", "!"), ("!!", standardTags)]

/-- Whether a token belongs to what is around a document. -/
def Token.isOutside : Token → Bool
  | version .. | tagHandle .. | documentStart | documentEnd | streamEnd => true
  | _ => false

/-- The first document, if there is one. What follows it does not matter, as long as there is a
token. -/
def readDocument (fuel : Nat) : NodeM (Option Node) := do
  if (← peek) = .streamEnd then return none
  let marked := (← peek).isOutside && (← peek) ≠ .documentEnd
  if marked then
    readDirectives false fuel
    if !(← skipIf .documentStart) then failure
  modify fun s => { s with handles := s.handles ++ standardHandles }
  let node ← if marked && (← peek).isOutside then pure .absent else readNode true false fuel
  discard peek
  return some node

/-- The first document of a text, if there is one, from the tokens of the text. -/
def document? (tokens : List Token) : Option (Option Node) :=
  (readDocument (4 * tokens.length + 4)).run' { tokens := tokens }

end Yaml

end ShaderGraph
