import ShaderGraph.Text.Printable

/-!
# Quoted text

`quote` writes a text between double quotes, with escapes for the quote, the backslash and every
character that cannot be printed. Messages quote names this way, and log lines quote values that
would not read back as one word.
-/

namespace ShaderGraph

namespace Text

/-! ### Quoting -/

/-- The hexadecimal digits of `n`, with zeros in front up to `width`. -/
def hexDigits (width n : Nat) : List Char :=
  let digits := Nat.toDigits 16 n
  List.replicate (width - digits.length) '0' ++ digits

/-- The characters that stand for `c` between quotes. -/
def escape (c : Char) : List Char :=
  if c = '"' then ['\\', '"']
  else if c = '\\' then ['\\', '\\']
  else if isPrintable c then [c]
  else
    match c.toNat with
    | 0x07 => ['\\', 'a']
    | 0x08 => ['\\', 'b']
    | 0x09 => ['\\', 't']
    | 0x0a => ['\\', 'n']
    | 0x0b => ['\\', 'v']
    | 0x0c => ['\\', 'f']
    | 0x0d => ['\\', 'r']
    | n =>
      if n < 0x20 || n = 0x7f then '\\' :: 'x' :: hexDigits 2 n
      else if n < 0x10000 then '\\' :: 'u' :: hexDigits 4 n
      else '\\' :: 'U' :: hexDigits 8 n

/-- The text between quotes. -/
def quote (s : String) : String := String.ofList ('"' :: s.toList.flatMap escape ++ ['"'])

/-! ### Words of a log line -/

/-- Whether a character would end or disturb a bare word of a log line. -/
def breaksWord (c : Char) : Bool :=
  if c.toNat < 0x80 then c.toNat ≤ 0x20 || c = '=' || c = '"'
  else c.toNat = 0xfffd || !isPrintable c

/-- The text as one word of a log line, quoted if it has to be. -/
def word (s : String) : String :=
  if s.isEmpty || s.toList.any breaksWord then quote s else s

end Text

end ShaderGraph
