import ShaderGraph.Toml.Parser
import ShaderGraph.Yaml.Cursor

/-!
# Scalars of a YAML text

The texts of plain scalars, of scalars in quotes and of blocks of lines. A line break inside a plain
or a quoted scalar is folded: alone it reads as a space, and of several the first one is left out.
Nothing is returned for a scalar that breaks the grammar.
-/

namespace ShaderGraph

namespace Yaml

/-! ### Folding -/

/-- The blanks and line breaks since the last other character of a scalar. -/
structure Gap where
  /-- The blanks before the first line break. -/
  blanks : List Char := []
  /-- The first line break. -/
  first : List Char := []
  /-- The other line breaks. -/
  others : List Char := []
  /-- There has been a line break, perhaps one that is left out. -/
  broken : Bool := false

namespace Gap

/-- What a gap reads as. -/
def folded (g : Gap) : List Char :=
  if !g.broken then g.blanks
  else if g.first = ['\n'] then if g.others.isEmpty then [' '] else g.others
  else g.first ++ g.others

/-- The gap and the place after it. In a plain scalar a tab may not stand in front of the column
`indent` of a line. -/
def read? (indent : Nat) : Nat → Gap → Cursor → Option (Gap × Cursor)
  | 0, g, c => some (g, c)
  | fuel + 1, g, c =>
    let x := c.peek
    if isBlank x then
      if g.broken && c.column < indent && x = '\t' then none
      else read? indent fuel (if g.broken then g else { g with blanks := g.blanks ++ [x] }) c.skip
    else if isBreak x then
      let (text, c) := c.readBreak
      let g := if g.broken then { g with others := g.others ++ text }
        else { g with blanks := [], first := text, broken := true }
      read? indent fuel g c
    else some (g, c)

end Gap

/-! ### Plain scalars -/

/-- Whether a plain scalar ends here: before a value indicator, and in a flow collection before its
indicators. -/
def endsPlain (flow : Bool) (c : Cursor) : Bool :=
  let x := c.peek
  isBlankOrEnd x || (x = ':' && isBlankOrEnd (c.peek 1)) ||
    (flow && (x = ',' || x = '[' || x = ']' || x = '\x7b' || x = '\x7d' ||
      (x = '?' && (c.peek 1 = ' ' || isBreakOrEnd (c.peek 1)))))

/-- Reads characters up to the end of a plain scalar or to a gap. -/
def plainRun (flow : Bool) : Nat → Cursor → List Char × Cursor
  | 0, c => ([], c)
  | fuel + 1, c =>
    if endsPlain flow c then ([], c)
    else
      let (text, next) := plainRun flow fuel c.skip
      (c.peek :: text, next)

/-- The rest of a plain scalar after a gap, the place after it, and whether the gap at its end has a
line break. Outside of flow collections it ends at a line that begins before the column `indent`. -/
def plain? (flow : Bool) (indent : Nat) : Nat → Gap → Cursor → Option (List Char × Cursor × Bool)
  | 0, _, _ => none
  | fuel + 1, g, c =>
    if c.isDocumentMarker || c.peek = '#' then some ([], c, g.broken)
    else
      let (run, c) := plainRun flow c.rest.length c
      let text := if run.isEmpty then [] else g.folded ++ run
      let g := if run.isEmpty then g else {}
      if !(isBlank c.peek || isBreak c.peek) then some (text, c, g.broken)
      else
        match Gap.read? indent c.rest.length g c with
        | none => none
        | some (g, c) =>
          if !flow && c.column < indent then some (text, c, g.broken)
          else (plain? flow indent fuel g c).map fun (more, c, broken) => (text ++ more, c, broken)

/-! ### Quoted scalars -/

/-- The character that an escape of one letter stands for. -/
def shortEscape? : Char → Option Char
  | '0' => some '\x00'
  | 'a' => some '\x07'
  | 'b' => some '\x08'
  | 't' => some '\t'
  | '\t' => some '\t'
  | 'n' => some '\n'
  | 'v' => some '\x0b'
  | 'f' => some '\x0c'
  | 'r' => some '\r'
  | 'e' => some '\x1b'
  | ' ' => some ' '
  | '"' => some '"'
  | '\'' => some '\''
  | '/' => some '/'
  | '\\' => some '\\'
  | 'N' => some '\u0085'
  | '_' => some '\u00a0'
  | 'L' => some '\u2028'
  | 'P' => some '\u2029'
  | _ => none

/-- The number of hexadecimal digits after the letter of an escape. -/
def escapeWidth? : Char → Option Nat
  | 'x' => some 2
  | 'u' => some 4
  | 'U' => some 8
  | _ => none

/-- The character that the escape here stands for, and the place after it. -/
def escape? (c : Cursor) : Option (Char × Cursor) :=
  match escapeWidth? (c.peek 1) with
  | some width =>
    (Toml.codePoint? width (c.rest.drop 2)).map fun (x, _) => (x, c.skipMany (width + 2))
  | none => (shortEscape? (c.peek 1)).map fun x => (x, c.skipMany 2)

/-- Reads characters of a quoted scalar up to its end or to a gap, and whether an escaped line break
ends them. -/
def quotedRun? (single : Bool) : Nat → Cursor → Option (List Char × Cursor × Bool)
  | 0, c => some ([], c, false)
  | fuel + 1, c =>
    let x := c.peek
    let continued (x : Char) (c : Cursor) :=
      (quotedRun? single fuel c).map fun (text, c, joined) => (x :: text, c, joined)
    if isBlankOrEnd x then some ([], c, false)
    else if single && x = '\'' then
      if c.peek 1 = '\'' then continued '\'' (c.skipMany 2) else some ([], c, false)
    else if !single && x = '"' then some ([], c, false)
    else if !single && x = '\\' then
      if isBreak (c.peek 1) then some ([], c.skip.skipBreak, true)
      else
        match escape? c with
        | some (x, c) => continued x c
        | none => none
    else continued x c.skip

/-- The rest of a quoted scalar, and the place after its last quote. -/
def quoted? (single : Bool) : Nat → Cursor → Option (List Char × Cursor)
  | 0, _ => none
  | fuel + 1, c =>
    if c.isDocumentMarker || c.atEnd then none
    else
      match quotedRun? single c.rest.length c with
      | none => none
      | some (text, c, joined) =>
        if c.peek = (if single then '\'' else '"') then some (text, c.skip)
        else
          match Gap.read? 0 c.rest.length { broken := joined } c with
          | none => none
          | some (g, c) =>
            (quoted? single fuel c).map fun (more, c) => (text ++ g.folded ++ more, c)

/-! ### Block scalars -/

/-- What becomes of the line breaks at the end of a block. -/
inductive Chomping where
  | clip
  | strip
  | keep
deriving DecidableEq

/-- The chomping that an indicator asks for. -/
def chomping? : Char → Option Chomping
  | '+' => some .keep
  | '-' => some .strip
  | _ => none

/-- The indicators of a block: how it ends and by how much it is indented, in either order. -/
def blockHeader? (c : Cursor) : Option (Chomping × Nat × Cursor) :=
  let digit (c : Cursor) : Option (Nat × Cursor) :=
    if !c.peek.isDigit then some (0, c)
    else if c.peek = '0' then none
    else some (c.peek.toNat - '0'.toNat, c.skip)
  match chomping? c.peek with
  | some chomping => (digit c.skip).map fun (indent, c) => (chomping, indent, c)
  | none =>
    (digit c).map fun (indent, c) =>
      match if indent = 0 then none else chomping? c.peek with
      | some chomping => (chomping, indent, c.skip)
      | none => (.clip, indent, c)

/-- Reads line breaks and the spaces in front of the column `indent`, of all columns if it is zero.
Returns the breaks, the largest column and the place after. -/
def blockBreaks? (indent : Nat) : Nat → Nat → Cursor → Option (List Char × Nat × Cursor)
  | 0, reached, c => some ([], reached, c)
  | fuel + 1, reached, c =>
    let spaces := (c.rest.takeWhile (· = ' ')).length
    let c := c.skipMany (if indent = 0 then spaces else min spaces (indent - c.column))
    let reached := max reached c.column
    if (indent = 0 || c.column < indent) && c.peek = '\t' then none
    else if isBreak c.peek then
      let (text, c) := c.readBreak
      (blockBreaks? indent fuel reached c).map fun (more, reached, c) =>
        (text ++ more, reached, c)
    else some ([], reached, c)

/-- The lines of a block from the first one with text on. `first` is the line break before the
line, `others` are the breaks of the empty lines after it, and `blank` says whether the line before
begins with a blank. Returns the text, the breaks at its end, and the place after. -/
def blockLines? (literal : Bool) (indent : Nat) :
    Nat → (first others : List Char) → (blank : Bool) → Cursor →
    Option (List Char × List Char × List Char × Cursor)
  | 0, first, others, _, c => some ([], first, others, c)
  | fuel + 1, first, others, blank, c =>
    if c.column ≠ indent || c.atEnd then some ([], first, others, c)
    else
      let startsBlank := isBlank c.peek
      let joint :=
        if !literal && !blank && !startsBlank && first = ['\n'] then
          if others.isEmpty then [' '] else others
        else first ++ others
      let (line, c) := c.readWhile fun x => !isBreakOrEnd x
      let (first, c) := c.readBreak
      match blockBreaks? indent c.rest.length 0 c with
      | none => none
      | some (others, _, c) =>
        (blockLines? literal indent fuel first others startsBlank c).map
          fun (text, first, others, c) => (joint ++ line ++ text, first, others, c)

/-- A block scalar after its first indicator. Lines are indented by the number of columns beyond
`parent` that its header gives, else as its first line with text is, by one column at least. -/
def block? (literal : Bool) (parent : Int) (c : Cursor) : Option (List Char × Cursor) := do
  let (chomping, increment, c) ← blockHeader? c
  let c := c.skipWhile isBlank
  let c := if c.peek = '#' then c.skipLine else c
  if !isBreakOrEnd c.peek then none
  let c := c.skipBreak
  let given := if increment = 0 then 0 else parent.toNat + increment
  let (others, reached, c) ← blockBreaks? given c.rest.length 0 c
  let indent := if given = 0 then max reached (max 1 (parent + 1).toNat) else given
  let (text, first, others, c) ← blockLines? literal indent (c.rest.length + 1) [] others false c
  let ending := match chomping with
    | .strip => []
    | .clip => first
    | .keep => first ++ others
  return (text ++ ending, c)

end Yaml

end ShaderGraph
