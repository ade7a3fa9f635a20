/-!
# TOML documents

A document is a sequence of expressions: assignments of a value to a key, and headers that say which
table the assignments after them belong to. A key is a path of names.

Numbers and moments keep their text. What a number means depends on what it is read into, and
whether there is such a moment is only asked when it is used.
-/

namespace ShaderGraph

namespace Toml

/-- What a moment is made of. -/
inductive MomentKind where
  | date
  | time
  | dateTime
  | offsetDateTime
deriving DecidableEq

/-- A path of names. -/
abbrev Key := List String

/-- A value. -/
inductive Value where
  | text (content : String)
  | number (written : List Char)
  | boolean (content : Bool)
  | moment (kind : MomentKind) (written : List Char)
  | array (items : List Value)
  /-- A table in braces. -/
  | table (entries : List (Key × Value))

/-- An expression of a document. -/
inductive Expression where
  | assignment (key : Key) (value : Value)
  /-- The header of a table. -/
  | table (key : Key)
  /-- The header of the next table of an array of tables. -/
  | tableOfArray (key : Key)

/-- The expressions of a document up to its end, or up to the place where it breaks the grammar. -/
structure Document where
  expressions : List Expression
  wellFormed : Bool

end Toml

end ShaderGraph
