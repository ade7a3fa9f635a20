/-!
# Patterns

A pattern is a text with holes, written `%s`, that are filled from left to right.
-/

namespace ShaderGraph

namespace Text

/-- Fills the holes of a pattern. A hole without a text stays empty. -/
def fillChars : List Char → List String → List Char
  | '%' :: 's' :: rest, args => (args.headD "").toList ++ fillChars rest args.tail
  | c :: rest, args => c :: fillChars rest args
  | [], _ => []

/-- The pattern with its holes filled. -/
def fill (pattern : String) (args : List String) : String :=
  String.ofList (fillChars pattern.toList args)

/-- `n` times a text, with commas between. -/
def repeated (n : Nat) (s : String) : String := ",".intercalate (List.replicate n s)

end Text

end ShaderGraph
