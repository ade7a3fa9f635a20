import ShaderGraph.Toml.Parser
import ShaderGraph.Yaml.Cursor
import ShaderGraph.Yaml.Token

/-!
# Names, tags and directives of YAML

The tokens that say something about a node or a document. Nothing is returned for one that breaks
the grammar.
-/

namespace ShaderGraph

namespace Yaml

/-- The name of an anchor or a reference, after its indicator. Only a blank or an indicator that may
not stand in a name ends it. -/
def name? (c : Cursor) : Option (String × Cursor) :=
  let (name, c) := c.readWhile isWordChar
  if name.isEmpty || !(isBlankOrEnd c.peek || "?:,]\x7d%@\x60".toList.contains c.peek) then none
  else some (String.ofList name, c)

/-! ### Tags -/

/-- Characters of the text of a tag. -/
def isTagChar (c : Char) : Bool := isWordChar c || ";/?:@&=+$,.!~*'()[]%".toList.contains c

/-- The byte that is written as a percent sign and two hexadecimal digits. -/
def percentByte? (c : Cursor) : Option Nat := do
  if c.peek ≠ '%' then none
  return 16 * (← Toml.hexValue? (c.peek 1)) + (← Toml.hexValue? (c.peek 2))

/-- The bytes after the first one of a character, as the lower parts of its code. -/
def percentTail? : Nat → Nat → Cursor → Option (Nat × Cursor)
  | 0, code, c => some (code, c)
  | count + 1, code, c =>
    match percentByte? c with
    | some byte =>
      if byte / 64 = 2 then percentTail? count (64 * code + byte % 64) (c.skipMany 3) else none
    | none => none

/-- The character whose bytes are written with percent signs. -/
def percentChar? (c : Cursor) : Option (Char × Cursor) := do
  let byte ← percentByte? c
  let next := c.skipMany 3
  let (code, c) ←
    if byte < 0x80 then some (byte, next)
    else if byte < 0xc0 then none
    else if byte < 0xe0 then percentTail? 1 (byte % 32) next
    else if byte < 0xf0 then percentTail? 2 (byte % 16) next
    else if byte < 0xf8 then percentTail? 3 (byte % 8) next
    else none
  return (Char.ofNat code, c)

/-- The text of a tag. -/
def tagText? : Nat → Cursor → Option (List Char × Cursor)
  | 0, c => some ([], c)
  | fuel + 1, c =>
    if c.peek = '%' then
      match percentChar? c with
      | some (x, c) => (tagText? fuel c).map fun (text, c) => (x :: text, c)
      | none => none
    else if isTagChar c.peek then
      (tagText? fuel c.skip).map fun (text, next) => (c.peek :: text, next)
    else some ([], c)

/-- The text of a tag that is not empty. -/
def someTagText? (c : Cursor) : Option (List Char × Cursor) :=
  match tagText? c.rest.length c with
  | some ([], _) => none
  | text => text

/-- The handle of a tag: an exclamation mark and a word, perhaps with another mark. -/
def handle? (c : Cursor) : Option (List Char × Cursor) :=
  if c.peek ≠ '!' then none
  else
    let (word, c) := c.skip.readWhile isWordChar
    if c.peek = '!' then some ('!' :: word ++ ['!'], c.skip) else some ('!' :: word, c)

/-- Whether a handle has two exclamation marks. -/
def isNamedHandle (handle : List Char) : Bool := 1 < handle.length && handle.getLast? == some '!'

/-- A tag: a text in angle brackets, a handle and a text, or a text alone, whose handle is one
exclamation mark. A single mark is a text without a handle. -/
def tag? (c : Cursor) : Option (Token × Cursor) := do
  let (handle, text, c) ←
    if c.peek 1 = '<' then do
      let (text, c) ← someTagText? (c.skipMany 2)
      if c.peek = '>' then some ([], text, c.skip) else none
    else do
      let (handle, c) ← handle? c
      if isNamedHandle handle then do
        let (text, c) ← someTagText? c
        some (handle, text, c)
      else do
        let (text, c) ← tagText? c.rest.length c
        match handle.drop 1 ++ text with
        | [] => some ([], ['!'], c)
        | text => some (['!'], text, c)
  if isBlankOrEnd c.peek then some (.tag (String.ofList handle) (String.ofList text), c) else none

/-! ### Directives -/

/-- The most digits of a number of a version. -/
def versionDigits : Nat := 2

/-- A number of a version. -/
def versionNumber? (c : Cursor) : Option (Nat × Cursor) :=
  let (digits, c) := c.readWhile Char.isDigit
  if digits.isEmpty || versionDigits < digits.length then none
  else some (digits.foldl (fun n x => 10 * n + (x.toNat - '0'.toNat)) 0, c)

/-- The version of the language. -/
def version? (c : Cursor) : Option (Token × Cursor) := do
  let (major, c) ← versionNumber? (c.skipWhile isBlank)
  if c.peek ≠ '.' then none
  let (minor, c) ← versionNumber? c.skip
  return (.version major minor, c)

/-- A handle for tags, and the text that it stands for. -/
def tagHandle? (c : Cursor) : Option (Token × Cursor) := do
  let (handle, c) ← handle? (c.skipWhile isBlank)
  if !(isNamedHandle handle || handle = ['!']) || !isBlank c.peek then none
  let (text, c) ← someTagText? (c.skipWhile isBlank)
  if !isBlankOrEnd c.peek then none
  return (.tagHandle (String.ofList handle) (String.ofList text), c)

/-- A directive after its percent sign, with the rest of its line. -/
def directive? (c : Cursor) : Option (Token × Cursor) := do
  let (name, c) := c.readWhile isWordChar
  if !isBlankOrEnd c.peek then none
  let (token, c) ←
    if name = "YAML".toList then version? c
    else if name = "TAG".toList then tagHandle? c
    else none
  let c := c.skipWhile isBlank
  let c := if c.peek = '#' then c.skipLine else c
  if isBreakOrEnd c.peek then some (token, c.skipBreak) else none

end Yaml

end ShaderGraph
