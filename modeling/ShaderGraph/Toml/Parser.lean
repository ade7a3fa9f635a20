import ShaderGraph.Toml.Document

/-!
# Reading TOML

The grammar as functions from a text to what its beginning stands for and the rest. There is none
where the text breaks the grammar. Functions that call themselves on the rest of a text take a
bound on the number of calls, which the length of the text provides.
-/

namespace ShaderGraph

namespace Toml

/-! ### Characters, space and comments -/

/-- Whether a character may stand in a comment or in a string: a control character other than the
tab and the line breaks may not. -/
def isAllowed (c : Char) : Bool :=
  c = '\t' || c = '\n' || c = '\r' || (0x20 ≤ c.toNat && c.toNat ≠ 0x7f)

/-- The text after spaces and tabs. -/
def skipBlanks (s : List Char) : List Char := s.dropWhile fun c => c = ' ' || c = '\t'

/-- The text after a line break. -/
def newline? : List Char → Option (List Char)
  | '\n' :: rest => some rest
  | '\r' :: '\n' :: rest => some rest
  | _ => none

/-- The text from the line break or the end after a comment on. -/
def comment? : List Char → Option (List Char)
  | [] => some []
  | '\n' :: rest => some ('\n' :: rest)
  | '\r' :: '\n' :: rest => some ('\r' :: '\n' :: rest)
  | c :: rest => if c ≠ '\r' && isAllowed c then comment? rest else none

/-- The text after blanks, line breaks and comments. -/
def skipLines? : Nat → List Char → Option (List Char)
  | 0, s => some s
  | fuel + 1, s => do
    let s := skipBlanks s
    let s ← if s.head? = some '#' then comment? s else some s
    match s with
    | '\n' :: _ | '\r' :: _ => skipLines? fuel (← newline? s)
    | _ => return s

/-! ### Strings -/

/-- The value of a hexadecimal digit. -/
def hexValue? (c : Char) : Option Nat :=
  if c.isDigit then some (c.toNat - '0'.toNat)
  else if 'a' ≤ c && c ≤ 'f' then some (c.toNat - 'a'.toNat + 10)
  else if 'A' ≤ c && c ≤ 'F' then some (c.toNat - 'A'.toNat + 10)
  else none

/-- The character with the code that `width` hexadecimal digits give, and the text after them. -/
def codePoint? (width : Nat) (s : List Char) : Option (Char × List Char) := do
  let digits := s.take width
  if digits.length < width then none
  let code ← digits.foldlM (fun n c => (hexValue? c).map (16 * n + ·)) 0
  if 0x10ffff < code || (0xd800 ≤ code && code < 0xe000) then none
  return (Char.ofNat code, s.drop width)

/-- The character that an escape stands for, after its backslash. -/
def escape? : List Char → Option (Char × List Char)
  | '"' :: rest => some ('"', rest)
  | '\\' :: rest => some ('\\', rest)
  | 'b' :: rest => some ('\x08', rest)
  | 'f' :: rest => some ('\x0c', rest)
  | 'n' :: rest => some ('\n', rest)
  | 'r' :: rest => some ('\r', rest)
  | 't' :: rest => some ('\t', rest)
  | 'e' :: rest => some ('\x1b', rest)
  | 'u' :: rest => codePoint? 4 rest
  | 'U' :: rest => codePoint? 8 rest
  | _ => none

/-- The rest of a string in double quotes, after the first quote. -/
def basic? : Nat → List Char → Option (List Char × List Char)
  | 0, _ => none
  | fuel + 1, s =>
    match s with
    | '"' :: rest => some ([], rest)
    | '\\' :: rest => do
      let (c, rest) ← escape? rest
      let (content, rest) ← basic? fuel rest
      return (c :: content, rest)
    | c :: rest =>
      if c = '\n' || c = '\r' || !isAllowed c then none
      else (basic? fuel rest).map fun (content, rest) => (c :: content, rest)
    | [] => none

/-- The rest of a string in single quotes, after the first quote. -/
def literal? : List Char → Option (List Char × List Char)
  | '\'' :: rest => some ([], rest)
  | c :: rest =>
    if c = '\n' || c = '\r' || !isAllowed c then none
    else (literal? rest).map fun (content, rest) => (c :: content, rest)
  | [] => none

/-- The quotes at the end of a string of several lines: the last three close it, and one or two in
front of them belong to it. -/
def closing? (quote : Char) (s : List Char) : Option (List Char × List Char) :=
  let count := (s.takeWhile (· = quote)).length
  if count < 6 then some (List.replicate (count - 3) quote, s.drop count) else none

/-- The text after blanks and line breaks. -/
def skipSpace : List Char → List Char
  | ' ' :: rest => skipSpace rest
  | '\t' :: rest => skipSpace rest
  | '\n' :: rest => skipSpace rest
  | '\r' :: '\n' :: rest => skipSpace rest
  | rest => rest

/-- The text after a backslash that ends its line: the line break goes with it, and so do all blanks
and line breaks after it. -/
def joinedLine? (s : List Char) : Option (List Char) := (newline? (skipBlanks s)).map skipSpace

/-- The rest of a string of several lines in double quotes. -/
def basicLines? : Nat → List Char → Option (List Char × List Char)
  | 0, _ => none
  | fuel + 1, s =>
    match s with
    | '"' :: '"' :: '"' :: _ => closing? '"' s
    | '\\' :: rest =>
      match joinedLine? rest with
      | some rest => basicLines? fuel rest
      | none => do
        let (c, rest) ← escape? rest
        let (content, rest) ← basicLines? fuel rest
        return (c :: content, rest)
    | '\r' :: '\n' :: rest =>
      (basicLines? fuel rest).map fun (content, rest) => ('\r' :: '\n' :: content, rest)
    | c :: rest =>
      if c = '\r' || !isAllowed c then none
      else (basicLines? fuel rest).map fun (content, rest) => (c :: content, rest)
    | [] => none

/-- The rest of a string of several lines in single quotes. -/
def literalLines? : Nat → List Char → Option (List Char × List Char)
  | 0, _ => none
  | fuel + 1, s =>
    match s with
    | '\'' :: '\'' :: '\'' :: _ => closing? '\'' s
    | '\r' :: '\n' :: rest =>
      (literalLines? fuel rest).map fun (content, rest) => ('\r' :: '\n' :: content, rest)
    | c :: rest =>
      if c = '\r' || !isAllowed c then none
      else (literalLines? fuel rest).map fun (content, rest) => (c :: content, rest)
    | [] => none

/-- The text without a line break at its beginning, which a string of several lines leaves out. -/
def dropFirstBreak (s : List Char) : List Char := (newline? s).getD s

/-- A string. -/
def string? (s : List Char) : Option (String × List Char) :=
  let found := match s with
    | '"' :: '"' :: '"' :: rest => basicLines? s.length (dropFirstBreak rest)
    | '"' :: rest => basic? s.length rest
    | '\'' :: '\'' :: '\'' :: rest => literalLines? s.length (dropFirstBreak rest)
    | '\'' :: rest => literal? rest
    | _ => none
  found.map fun (content, rest) => (String.ofList content, rest)

/-! ### Keys -/

/-- Whether a character may stand in a name without quotes. -/
def isBare (c : Char) : Bool := c.isAlphanum || c = '-' || c = '_'

/-- A name: bare, or a string of one line. -/
def name? (s : List Char) : Option (String × List Char) :=
  match s with
  | '"' :: rest => (basic? s.length rest).map fun (name, rest) => (String.ofList name, rest)
  | '\'' :: rest => (literal? rest).map fun (name, rest) => (String.ofList name, rest)
  | _ =>
    let name := s.takeWhile isBare
    if name.isEmpty then none else some (String.ofList name, s.dropWhile isBare)

/-- Names with points between them, and blanks around the points. -/
def key? : Nat → List Char → Option (Key × List Char)
  | 0, _ => none
  | fuel + 1, s => do
    let (name, rest) ← name? s
    match skipBlanks rest with
    | '.' :: rest => do
      let (names, rest) ← key? fuel (skipBlanks rest)
      return (name :: names, rest)
    | rest => return ([name], rest)

/-! ### Numbers and moments -/

/-- The characters that numbers are made of. -/
def isNumeric (c : Char) : Bool :=
  c.isDigit || c = '+' || c = '-' || c = '_' || c = '.' || c = 'e' || c = 'E'

/-- The digits of a number with a letter for its base. -/
def digitsOfBase? : Char → Option (Char → Bool)
  | 'x' => some fun c => (hexValue? c).isSome || c = '_'
  | 'o' => some fun c => ('0' ≤ c && c ≤ '7') || c = '_'
  | 'b' => some fun c => c = '0' || c = '1' || c = '_'
  | _ => none

/-- A number of numeric characters, or of such characters and a word. -/
def decimal? (s : List Char) : Option (Value × List Char) :=
  let written := s.takeWhile isNumeric
  let rest := s.dropWhile isNumeric
  if rest.head? = some 'i' || rest.head? = some 'n' then
    let word := rest.take 3
    if word = ['i', 'n', 'f'] || word = ['n', 'a', 'n'] then
      some (.number (written ++ word), rest.drop 3)
    else none
  else if written.isEmpty then none
  else some (.number written, rest)

/-- A number. A zero is followed by the letter of a base, or it is the only digit before the point
or the exponent. -/
def number? (s : List Char) : Option (Value × List Char) :=
  match s with
  | '0' :: c :: d :: rest =>
    if c = '.' || c = 'e' || c = 'E' then decimal? s
    else
      match digitsOfBase? c with
      | some isDigit =>
        some (.number ('0' :: c :: (d :: rest).takeWhile isDigit), (d :: rest).dropWhile isDigit)
      | none => some (.number ['0'], c :: d :: rest)
  | _ => decimal? s

/-- What the characters of a moment have shown about it. -/
structure MomentParts where
  date : Bool := false
  time : Bool := false
  zone : Bool := false
  /-- A space has been read, as there is one between a date and a time. -/
  space : Bool := false

/-- What a moment with the given parts is. -/
def MomentParts.kind (p : MomentParts) : MomentKind :=
  if p.time then
    if p.date then if p.zone then .offsetDateTime else .dateTime else .time
  else .date

/-- The characters of a moment from place `i` on. A minus sign from the ninth place on is that of a
zone. A space is taken together with the digit after it and one more character. -/
def moment (i : Nat) (p : MomentParts) : List Char → List Char × MomentParts × List Char
  | [] => ([], p, [])
  | ' ' :: d :: rest =>
    if p.space || !d.isDigit then ([], p, ' ' :: d :: rest)
    else
      let p := { p with space := true, time := true }
      match rest with
      | [] => ([' ', d], p, [])
      | e :: rest =>
        let (written, p, rest) := moment (i + 3) p rest
        (' ' :: d :: e :: written, p, rest)
  | c :: rest =>
    let next (p : MomentParts) :=
      let (written, p, rest) := moment (i + 1) p rest
      (c :: written, p, rest)
    if c.isDigit then next p
    else if c = '-' then next { p with date := true, zone := p.zone || 8 ≤ i }
    else if c = 'T' || c = 't' || c = ':' || c = '.' then next { p with time := true }
    else if c = '+' || c = 'Z' || c = 'z' then next { p with zone := true }
    else ([], p, c :: rest)

/-- Whether the third character is the colon of a time or the fifth the minus sign of a date, after
digits alone. -/
def startsMoment : List Char → Bool
  | a :: b :: ':' :: _ => a.isDigit && b.isDigit
  | a :: b :: c :: d :: '-' :: _ => a.isDigit && b.isDigit && c.isDigit && d.isDigit
  | _ => false

/-! ### Values -/

mutual

/-- A value. -/
def value? : Nat → List Char → Option (Value × List Char)
  | 0, _ => none
  | fuel + 1, s =>
    match s with
    | [] => none
    | '"' :: _ | '\'' :: _ => (string? s).map fun (content, rest) => (.text content, rest)
    | 't' :: rest =>
      if rest.take 3 = ['r', 'u', 'e'] then some (.boolean true, rest.drop 3) else none
    | 'f' :: rest =>
      if rest.take 4 = ['a', 'l', 's', 'e'] then some (.boolean false, rest.drop 4) else none
    | '[' :: rest => (items? fuel true rest).map fun (items, rest) => (.array items, rest)
    | '\x7b' :: rest => (entries? fuel true rest).map fun (entries, rest) => (.table entries, rest)
    | _ =>
      if startsMoment s then
        let (written, parts, rest) := moment 0 {} s
        some (.moment parts.kind written, rest)
      else number? s

/-- The rest of an array. Commas stand between the items, and one may stand after the last. -/
def items? : Nat → Bool → List Char → Option (List Value × List Char)
  | 0, _, _ => none
  | fuel + 1, first, s => do
    match ← skipLines? s.length s with
    | ']' :: rest => return ([], rest)
    | s =>
      let s ← if first then some s
        else match s with
          | ',' :: rest => skipLines? rest.length rest
          | _ => none
      match s with
      | ']' :: rest => return ([], rest)
      | _ =>
        let (item, rest) ← value? fuel s
        let (items, rest) ← items? fuel false rest
        return (item :: items, rest)

/-- The rest of a table in braces. Commas stand between the entries only. -/
def entries? : Nat → Bool → List Char → Option (List (Key × Value) × List Char)
  | 0, _, _ => none
  | fuel + 1, first, s =>
    match skipBlanks s with
    | '\x7d' :: rest => some ([], rest)
    | s => do
      let s ← if first then some s
        else match s with
          | ',' :: rest => some (skipBlanks rest)
          | _ => none
      let (entry, rest) ← assignment? fuel s
      let (entries, rest) ← entries? fuel false rest
      return (entry :: entries, rest)

/-- A key, an equals sign and a value. -/
def assignment? : Nat → List Char → Option ((Key × Value) × List Char)
  | 0, _ => none
  | fuel + 1, s => do
    let (key, rest) ← key? s.length s
    match skipBlanks rest with
    | '=' :: rest => do
      let (value, rest) ← value? fuel (skipBlanks rest)
      return ((key, value), rest)
    | _ => none

end

/-! ### Documents -/

/-- A header or an assignment. -/
def statement? (s : List Char) : Option (Expression × List Char) :=
  match s with
  | '[' :: '[' :: rest => do
    let (key, rest) ← key? s.length (skipBlanks rest)
    match skipBlanks rest with
    | ']' :: ']' :: rest => some (.tableOfArray key, rest)
    | _ => none
  | '[' :: rest => do
    let (key, rest) ← key? s.length (skipBlanks rest)
    match skipBlanks rest with
    | ']' :: rest => some (.table key, rest)
    | _ => none
  | _ =>
    (assignment? (2 * s.length + 2) s).map fun ((key, value), rest) => (.assignment key value, rest)

/-- A line: blanks, an expression if there is one, and a comment if there is one. -/
def line? (s : List Char) : Option (Option Expression × List Char) :=
  match skipBlanks s with
  | [] => some (none, [])
  | '#' :: rest => (comment? rest).map fun rest => (none, rest)
  | '\n' :: rest => some (none, '\n' :: rest)
  | '\r' :: rest => some (none, '\r' :: rest)
  | s => do
    let (e, rest) ← statement? s
    match skipBlanks rest with
    | '#' :: rest => (comment? rest).map fun rest => (some e, rest)
    | rest => some (some e, rest)

/-- The lines of a text, with line breaks between them. -/
def lines : Nat → List Char → Document
  | 0, _ => ⟨[], false⟩
  | fuel + 1, s =>
    match line? s with
    | none => ⟨[], false⟩
    | some (e, rest) =>
      let after : Document :=
        if rest.isEmpty then ⟨[], true⟩
        else match newline? rest with
          | none => ⟨[], false⟩
          | some rest => lines fuel rest
      ⟨e.toList ++ after.expressions, after.wellFormed⟩

/-- The document that a text stands for. -/
def Document.ofText (text : String) : Document := lines (text.toList.length + 1) text.toList

end Toml

end ShaderGraph
