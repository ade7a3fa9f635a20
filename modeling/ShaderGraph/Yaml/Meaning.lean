import ShaderGraph.Text.Base64
import ShaderGraph.Toml.Parser
import ShaderGraph.Yaml.Moment
import ShaderGraph.Yaml.Node

/-!
# The meaning of a scalar of YAML

A plain scalar without a tag means what it looks like; with a tag, what the tag says, if it looks
like that. All other scalars are texts.
-/

namespace ShaderGraph

namespace Yaml

/-- What a scalar means. -/
inductive Meaning where
  | nothing
  | flag (b : Bool)
  | whole (i : Int)
  | double (x : Double)
  | moment
  | text (content : String)
deriving DecidableEq

/-! ### Numbers -/

/-- The number that digits of a base stand for, below the bound of a word. -/
def digits? (base : Nat) (s : List Char) : Option Nat := do
  let n ← s.foldlM (fun n c => do
    let digit ← Toml.hexValue? c
    if digit < base then some (base * n + digit) else none) 0
  if n < UInt64.size then some n else none

/-- The base that a letter after a zero asks for. -/
def base? (mark : Char) : Option Nat :=
  match mark.toLower with
  | 'b' => some 2
  | 'o' => some 8
  | 'x' => some 16
  | _ => none

/-- A whole number without a sign. A zero in front of other digits makes it octal. -/
def unsigned? : List Char → Option Nat
  | [] => none
  | '0' :: mark :: digit :: rest =>
    match base? mark with
    | some base => digits? base (digit :: rest)
    | none => digits? 8 (mark :: digit :: rest)
  | '0' :: rest => digits? 8 rest
  | s => digits? 10 s

/-- A number with a sign, if it is within a signed word. -/
def signed? (negative : Bool) (magnitude : Nat) : Option Int :=
  let i : Int := if negative then -(magnitude : Int) else magnitude
  if Int64.minValue.toInt ≤ i && i ≤ Int64.maxValue.toInt then some i else none

/-- A whole number: within a signed word, or without a sign within an unsigned one. -/
def whole? (s : List Char) : Option Int :=
  let (negative, body) := Numeral.takeSign s
  ((unsigned? body).bind (signed? negative)).or ((unsigned? s).map Int.ofNat)

/-- A whole number whose sign stands after its base. -/
def lateSign? : List Char → Option Int
  | '0' :: mark :: sign :: digit :: rest =>
    if (mark = 'b' || mark = 'o') && (sign = '+' || sign = '-') then
      ((base? mark).bind fun base => digits? base (digit :: rest)).bind (signed? (sign = '-'))
    else none
  | _ => none

/-- Whether the underscores of a number stand between digits, given whether a digit is in front. -/
def separatesDigits : (afterDigit : Bool) → List Char → Bool
  | _, [] => true
  | afterDigit, '_' :: rest =>
    afterDigit && (rest.head?.map Char.isDigit).getD false && separatesDigits false rest
  | _, c :: rest => separatesDigits c.isDigit rest

/-- The number that a text stands for, in double precision. -/
def double? (s : List Char) : Option Double := (Numeral.read? s).bind Double.ofNumeral?

/-- What a text means that begins with a digit or a sign. Its underscores do not matter. -/
def number? (s : List Char) : Option Meaning :=
  let s := s.filter (· ≠ '_')
  ((whole? s).map .whole).or (((double? s).map .double).or ((lateSign? s).map .whole))

/-! ### Scalars -/

/-- The words with a meaning of their own. -/
def words : List (List String × Meaning) :=
  [(["true", "True", "TRUE"], .flag true),
   (["false", "False", "FALSE"], .flag false),
   (["", "~", "null", "Null", "NULL"], .nothing),
   ([".nan", ".NaN", ".NAN"], .double .nan),
   ([".inf", ".Inf", ".INF", "+.inf", "+.Inf", "+.INF"], .double (.infinite false)),
   (["-.inf", "-.Inf", "-.INF"], .double (.infinite true))]

/-- What a text looks like. -/
def Meaning.ofPlain (content : String) : Meaning :=
  match words.find? fun word => word.1.contains content with
  | some word => word.2
  | none =>
    let s := content.toList
    match s with
    | '.' :: _ =>
      match if separatesDigits false s then double? (s.filter (· ≠ '_')) else none with
      | some x => .double x
      | none => .text content
    | c :: _ =>
      if !(c.isDigit || c = '+' || c = '-') then .text content
      else if isMoment s then .moment
      else (number? s).getD (.text content)
    | [] => .nothing

/-- What a scalar means; nothing if it is not what its tag says. -/
def Meaning.ofScalar? (tag : Option String) (plain : Bool) (content : String) : Option Meaning :=
  match tag with
  | none => some (if plain then ofPlain content else .text content)
  | some "!!bool" =>
    match ofPlain content with
    | .flag b => some (.flag b)
    | _ => none
  | some "!!int" =>
    match ofPlain content with
    | .whole i => some (.whole i)
    | _ => none
  | some "!!float" =>
    match ofPlain content with
    | .double x => some (.double x)
    | .whole i => if i ≤ Int64.maxValue.toInt then some (.double (.ofInt i)) else none
    | _ => none
  | some "!!null" => if ofPlain content = .nothing then some .nothing else none
  | some "!!timestamp" => if ofPlain content = .moment then some .moment else none
  | some "!!binary" => (Text.ofBase64? content).map .text
  | some _ => some (.text content)

/-- Whether a node means nothing. -/
def Node.isNothing : Node → Bool
  | scalar tag plain content => Meaning.ofScalar? tag plain content == some .nothing
  | reference _ (some target) => target.isNothing
  | _ => false

end Yaml

end ShaderGraph
