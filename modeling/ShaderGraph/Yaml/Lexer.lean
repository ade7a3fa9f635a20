import ShaderGraph.Yaml.Property
import ShaderGraph.Yaml.Scalar

/-!
# The tokens of a YAML text

A text is read from left to right. A key of a mapping is only known to be one when the colon after
it is reached, so what may turn out to be a key is remembered: the `Candidate` of each level of flow
collections. The colon must be on the same line and not far away, and then the tokens of the key
are inserted in front.

Block collections end where a line begins to the left of them. In flow collections indentation says
nothing.
-/

namespace ShaderGraph

namespace Yaml

/-- What may turn out to be the key of a mapping. -/
structure Candidate where
  /-- The number of tokens in front. -/
  position : Nat
  /-- It begins a line of a block mapping, where nothing else than a key may stand. -/
  required : Bool
  index : Nat
  line : Nat
  column : Nat

/-- The farthest that the colon may be from the beginning of its key. -/
def Candidate.reach : Nat := 1024

/-- Whether a place is beyond the reach of a candidate. -/
def Candidate.isPassed (key : Candidate) (c : Cursor) : Bool :=
  key.line < c.line || key.index + Candidate.reach < c.index

/-- What has been read of a text. -/
structure Lexer where
  cursor : Cursor
  tokens : List Token := []
  /-- The columns of the block collections around, the innermost first. -/
  indents : List Nat := []
  /-- The candidate of the innermost level. -/
  candidate : Option Candidate := none
  /-- The candidates of the levels around the flow collections, the innermost first. -/
  outer : List (Option Candidate) := []
  /-- A key without an indicator may begin here. -/
  keyAllowed : Bool := true

namespace Lexer

/-- Whether a flow collection is open. -/
def inFlow (l : Lexer) : Bool := !l.outer.isEmpty

/-- The column of the innermost block collection, `-1` outside of all. -/
def indent (l : Lexer) : Int :=
  match l.indents with
  | [] => -1
  | column :: _ => column

/-- Adds a token. -/
def push (l : Lexer) (t : Token) : Lexer := { l with tokens := l.tokens ++ [t] }

/-- Inserts a token after the first ones. -/
def insert (l : Lexer) (position : Nat) (t : Token) : Lexer :=
  { l with tokens := l.tokens.take position ++ t :: l.tokens.drop position }

/-- Adds a token, and goes on after it. -/
def pushTo (l : Lexer) (t : Token) (c : Cursor) : Lexer := { l.push t with cursor := c }

/-! ### Indentation -/

/-- Ends the block collections whose columns are beyond a column. -/
def unroll (column : Int) (l : Lexer) : Lexer :=
  if l.inFlow then l
  else
    let ended := l.indents.takeWhile fun (indent : Nat) => column < indent
    { l with indents := l.indents.drop ended.length,
             tokens := l.tokens ++ ended.map fun _ => .blockEnd }

/-- Begins a block collection at a column, in front of the tokens from a position on, unless there
is one already. -/
def roll (column position : Nat) (start : Token) (l : Lexer) : Lexer :=
  if l.inFlow || column ≤ l.indent then l
  else { l.insert position start with indents := column :: l.indents }

/-! ### Candidates for keys -/

/-- Gives up the candidate for a key, which must not be a required one. -/
def dropCandidate? (l : Lexer) : Option Lexer :=
  if l.candidate.elim false (·.required) then none else some { l with candidate := none }

/-- Makes the next token the candidate for a key if one may begin here. -/
def saveCandidate? (l : Lexer) : Option Lexer :=
  if !l.keyAllowed then some l
  else
    let key : Candidate :=
      { position := l.tokens.length, required := !l.inFlow && l.indent = l.cursor.column,
        index := l.cursor.index, line := l.cursor.line, column := l.cursor.column }
    l.dropCandidate?.map fun l => { l with candidate := some key }

/-! ### Space -/

/-- Goes on to the next token. A tab is no space where a key may begin, unless it is in a flow
collection. -/
def skipSpace : Nat → Lexer → Lexer
  | 0, l => l
  | fuel + 1, l =>
    let c := l.cursor.skipWhile fun x => x = ' ' || ((l.inFlow || !l.keyAllowed) && x = '\t')
    let c := if c.peek = '#' then c.skipComments c.rest.length else c
    if isBreak c.peek then
      skipSpace fuel { l with cursor := c.skipBreak, keyAllowed := l.keyAllowed || !l.inFlow }
    else { l with cursor := c }

/-! ### Tokens -/

/-- The end of the text. -/
def streamEnd? (l : Lexer) : Option Lexer :=
  (l.unroll (-1)).dropCandidate?.map (·.push .streamEnd)

/-- A directive. -/
def directive? (l : Lexer) : Option Lexer := do
  let l ← (l.unroll (-1)).dropCandidate?
  let (t, c) ← Yaml.directive? l.cursor.skip
  return { l with keyAllowed := false }.pushTo t c

/-- The mark of the beginning or the end of a document. -/
def documentMarker? (l : Lexer) (t : Token) : Option Lexer :=
  (l.unroll (-1)).dropCandidate?.map fun l =>
    { l with keyAllowed := false }.pushTo t (l.cursor.skipMany 3)

/-- The beginning of a flow collection, which may be a key as a whole. -/
def flowStart? (l : Lexer) (t : Token) : Option Lexer :=
  l.saveCandidate?.map fun l =>
    { l with candidate := none, outer := l.candidate :: l.outer, keyAllowed := true }.pushTo t
      l.cursor.skip

/-- The end of a flow collection. -/
def flowEnd? (l : Lexer) (t : Token) : Option Lexer :=
  l.dropCandidate?.map fun l =>
    let l := match l.outer with
      | [] => l
      | candidate :: outer => { l with candidate := candidate, outer := outer }
    { l with keyAllowed := false }.pushTo t l.cursor.skip

/-- The mark between items of a flow collection. -/
def flowEntry? (l : Lexer) : Option Lexer :=
  l.dropCandidate?.map fun l => { l with keyAllowed := true }.pushTo .flowEntry l.cursor.skip

/-- The mark of an item of a block sequence, which begins one if it is farther to the right. -/
def blockEntry? (l : Lexer) : Option Lexer :=
  if !l.inFlow && !l.keyAllowed then none
  else
    (l.roll l.cursor.column l.tokens.length .blockSequenceStart).dropCandidate?.map fun l =>
      { l with keyAllowed := true }.pushTo .blockEntry l.cursor.skip

/-- The mark of a key. -/
def key? (l : Lexer) : Option Lexer :=
  if !l.inFlow && !l.keyAllowed then none
  else
    (l.roll l.cursor.column l.tokens.length .blockMappingStart).dropCandidate?.map fun l =>
      { l with keyAllowed := !l.inFlow }.pushTo .key l.cursor.skip

/-- The mark of a value whose key has a mark of its own, or is left out. -/
def lateValue? (l : Lexer) : Option Lexer :=
  if !l.inFlow && !l.keyAllowed then none
  else
    let l := l.roll l.cursor.column l.tokens.length .blockMappingStart
    some ({ l with keyAllowed := !l.inFlow }.pushTo .value l.cursor.skip)

/-- The mark of a value. The candidate for a key turns out to be one. -/
def value? (l : Lexer) : Option Lexer :=
  match l.candidate with
  | none => l.lateValue?
  | some key =>
    if key.isPassed l.cursor then
      if key.required then none else { l with candidate := none }.lateValue?
    else
      let l := (l.insert key.position .key).roll key.column key.position .blockMappingStart
      some ({ l with candidate := none, keyAllowed := false }.pushTo .value l.cursor.skip)

/-- A token that may begin a key. -/
def keyed? (l : Lexer) (read : Cursor → Option (Token × Cursor)) : Option Lexer := do
  let l ← l.saveCandidate?
  let (t, c) ← read l.cursor
  return { l with keyAllowed := false }.pushTo t c

/-- The name of an anchor or a reference. -/
def name? (l : Lexer) (make : String → Token) : Option Lexer :=
  l.keyed? fun c => (Yaml.name? c.skip).map fun (name, c) => (make name, c)

/-- A scalar in quotes. -/
def quoted? (l : Lexer) (single : Bool) : Option Lexer :=
  l.keyed? fun c =>
    (Yaml.quoted? single (c.rest.length + 1) c.skip).map fun (content, c) =>
      (.scalar false (String.ofList content), c)

/-- A scalar written as a block, which is no key. -/
def block? (l : Lexer) (literal : Bool) : Option Lexer := do
  let l ← l.dropCandidate?
  let (content, c) ← Yaml.block? literal l.indent l.cursor.skip
  return { l with keyAllowed := true }.pushTo (.scalar false (String.ofList content)) c

/-- A plain scalar. A key may begin after it if there is a line break. -/
def plain? (l : Lexer) : Option Lexer := do
  let l ← l.saveCandidate?
  let (content, c, broken) ←
    Yaml.plain? l.inFlow (l.indent + 1).toNat (l.cursor.rest.length + 1) {} l.cursor
  return { l with keyAllowed := broken }.pushTo (.scalar true (String.ofList content)) c

/-- Whether a plain scalar may begin here. -/
def startsPlain (l : Lexer) : Bool :=
  let x := l.cursor.peek
  let next := l.cursor.peek 1
  !(isBlankOrEnd x || "-?:,[]\x7b\x7d#&*!|>'\"%@\x60".toList.contains x) ||
    (x = '-' && !isBlank next) ||
    (!l.inFlow && (x = '?' || x = ':') && !isBlankOrEnd next)

/-- The token that an indicator or the beginning of a scalar stands for. -/
def content? (l : Lexer) : Option Lexer :=
  let next := l.cursor.peek 1
  let indicates := l.inFlow || isBlankOrEnd next
  match l.cursor.peek with
  | '[' => l.flowStart? .flowSequenceStart
  | '\x7b' => l.flowStart? .flowMappingStart
  | ']' => l.flowEnd? .flowSequenceEnd
  | '\x7d' => l.flowEnd? .flowMappingEnd
  | ',' => l.flowEntry?
  | '*' => l.name? .reference
  | '&' => l.name? .anchor
  | '!' => l.keyed? tag?
  | '\'' => l.quoted? true
  | '"' => l.quoted? false
  | x =>
    if x = '-' && isBlankOrEnd next then l.blockEntry?
    else if x = '?' && indicates then l.key?
    else if x = ':' && indicates then l.value?
    else if x = '|' && !l.inFlow then l.block? true
    else if x = '>' && !l.inFlow then l.block? false
    else if l.startsPlain then l.plain?
    else none

/-- Goes past a comment on the line of the last token. After the mark of an item it belongs to what
follows. -/
def skipLineComment (l : Lexer) : Lexer :=
  if l.tokens.getLast? = some .blockEntry then l
  else { l with cursor := l.cursor.skipLineComment }

/-- Reads up to the end of the next token, with the tokens that come with it. -/
def step? (l : Lexer) : Option Lexer :=
  let l := l.skipSpace (l.cursor.rest.length + 1)
  let l := l.unroll l.cursor.column
  if l.cursor.atEnd then l.streamEnd?
  else if l.cursor.column = 0 && l.cursor.peek = '%' then l.directive?
  else if l.cursor.isMarker '-' then l.documentMarker? .documentStart
  else if l.cursor.isMarker '.' then l.documentMarker? .documentEnd
  else l.content?.map skipLineComment

/-! ### Texts -/

/-- The number of tokens that are read ahead of the one in use. -/
def lookahead : Nat := 2

/-- The tokens that can be used if the text breaks the grammar after them: they have others behind
them, and cannot turn out to be keys. -/
def settled (l : Lexer) : List Token :=
  let open? (candidate : Option Candidate) : Option Nat :=
    candidate.bind fun key =>
      if key.isPassed l.cursor && !key.required then none else some key.position
  let limit := (l.candidate :: l.outer).filterMap open?
  l.tokens.take (limit.foldl min (l.tokens.length - lookahead))

/-- The tokens up to the end of the text, or up to where they can be used. -/
def run : Nat → Lexer → List Token
  | 0, l => l.settled
  | fuel + 1, l =>
    match l.step? with
    | none => l.settled
    | some l => if l.tokens.getLast? = some .streamEnd then l.tokens else run fuel l

end Lexer

/-- The tokens of a text; none for a text with a character that may not stand in one. A byte order
mark in front is left out. -/
def tokens? (text : String) : Option (List Token) :=
  let chars := match text.toList with
    | '\ufeff' :: rest => rest
    | chars => chars
  if chars.all isPermitted then
    some (Lexer.run (chars.length + 1) { cursor := { rest := chars } })
  else none

end Yaml

end ShaderGraph
