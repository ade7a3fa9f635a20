/-!
# Places in a YAML text

A cursor is a place in a text: what is left of it, and where that is by line and column. The end of
the text reads as the null character, which no text contains.
-/

namespace ShaderGraph

namespace Yaml

/-! ### Classes of characters -/

/-- The character that stands for the end of a text. -/
def endMark : Char := '\x00'

/-- Whether a text may contain a character. -/
def isPermitted (c : Char) : Bool :=
  c = '\t' || c = '\n' || c = '\r' || (0x20 ≤ c.toNat && c.toNat ≤ 0x7e) || c.toNat = 0x85 ||
    (0xa0 ≤ c.toNat && c.toNat ≠ 0xfffe && c.toNat ≠ 0xffff)

/-- Spaces and tabs. -/
def isBlank (c : Char) : Bool := c = ' ' || c = '\t'

/-- Characters that end a line. -/
def isBreak (c : Char) : Bool :=
  c = '\n' || c = '\r' || c.toNat = 0x85 || c.toNat = 0x2028 || c.toNat = 0x2029

/-- Line breaks and the end. -/
def isBreakOrEnd (c : Char) : Bool := isBreak c || c = endMark

/-- Blanks, line breaks and the end. -/
def isBlankOrEnd (c : Char) : Bool := isBlank c || isBreakOrEnd c

/-- Characters of names. -/
def isWordChar (c : Char) : Bool := c.isAlphanum || c = '_' || c = '-'

/-! ### Cursors -/

/-- A place in a text. -/
structure Cursor where
  /-- The text from here on. -/
  rest : List Char
  /-- The number of characters before. -/
  index : Nat := 0
  line : Nat := 0
  column : Nat := 0
  /-- Only blanks stand between the last line break and this place. -/
  fresh : Bool := false

namespace Cursor

/-- The character at a distance. -/
def peek (c : Cursor) (distance : Nat := 0) : Char := c.rest.getD distance endMark

/-- Whether the text has ended. -/
def atEnd (c : Cursor) : Bool := c.rest.isEmpty

/-- The place after one character. -/
def skip (c : Cursor) : Cursor :=
  match c.rest with
  | [] => c
  | x :: rest =>
    { c with rest := rest, index := c.index + 1, column := c.column + 1,
             fresh := c.fresh && isBlank x }

/-- The place after a number of characters. -/
def skipMany : Nat → Cursor → Cursor
  | 0, c => c
  | n + 1, c => skipMany n c.skip

/-- The place after the characters of a kind. -/
def skipWhile (p : Char → Bool) (c : Cursor) : Cursor :=
  c.skipMany (c.rest.takeWhile p).length

/-- The characters of a kind, and the place after them. -/
def readWhile (p : Char → Bool) (c : Cursor) : List Char × Cursor :=
  (c.rest.takeWhile p, c.skipWhile p)

/-- The line break here, if there is one, and the place after it. The breaks of ASCII and the next
line character are all read as a line feed. -/
def readBreak (c : Cursor) : List Char × Cursor :=
  let next (count : Nat) (rest : List Char) : Cursor :=
    { rest := rest, index := c.index + count, line := c.line + 1, column := 0, fresh := true }
  match c.rest with
  | '\r' :: '\n' :: rest => (['\n'], next 2 rest)
  | x :: rest =>
    if x.toNat = 0x2028 || x.toNat = 0x2029 then ([x], next 1 rest)
    else if isBreak x then (['\n'], next 1 rest)
    else ([], c)
  | [] => ([], c)

/-- The place after the line break here, if there is one. -/
def skipBreak (c : Cursor) : Cursor := c.readBreak.2

/-- Whether three of a character stand here at the beginning of a line, and nothing right after
them. -/
def isMarker (c : Cursor) (x : Char) : Bool :=
  c.column == 0 && c.peek == x && c.peek 1 == x && c.peek 2 == x && isBlankOrEnd (c.peek 3)

/-- Whether the beginning or the end of a document is marked here. -/
def isDocumentMarker (c : Cursor) : Bool := c.isMarker '-' || c.isMarker '.'

/-! ### Comments -/

/-- The place after the rest of a line. -/
def skipLine (c : Cursor) : Cursor := c.skipWhile fun x => !isBreakOrEnd x

/-- The place after blanks and line breaks. -/
def skipGap : Nat → Cursor → Cursor
  | 0, c => c
  | fuel + 1, c =>
    if isBlank c.peek then skipGap fuel c.skip
    else if isBreak c.peek then skipGap fuel c.skipBreak
    else c

/-- The farthest that the next line of a comment may begin from the end of the last one. -/
def commentReach : Nat := 511

/-- The place after a comment and the comments on the lines that follow it, whatever blanks are in
front of them. -/
def skipComments : Nat → Cursor → Cursor
  | 0, c => c
  | fuel + 1, c =>
    let c := c.skipLine
    let next := c.skipGap commentReach
    if next.peek = '#' then skipComments fuel next else c

/-- The place after a comment on the same line, if there is one. -/
def skipLineComment (c : Cursor) : Cursor :=
  let next := c.skipWhile isBlank
  if !c.fresh && next.peek = '#' then next.skipLine else c

end Cursor

end Yaml

end ShaderGraph
