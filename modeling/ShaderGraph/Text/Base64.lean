/-!
# Texts written in base 64

Four characters stand for three bytes. At the end of a text, equals signs fill up four characters
that stand for fewer bytes; their surplus bits do not matter. Line breaks do not matter either.
-/

namespace ShaderGraph

namespace Text

/-- The value of a character in base 64. -/
def base64Value? (c : Char) : Option Nat :=
  if c.isUpper then some (c.toNat - 'A'.toNat)
  else if c.isLower then some (c.toNat - 'a'.toNat + 26)
  else if c.isDigit then some (c.toNat - '0'.toNat + 52)
  else if c = '+' then some 62
  else if c = '/' then some 63
  else none

/-- The bytes that characters in base 64 stand for. -/
def base64Bytes? : List Char → Option (List UInt8)
  | [] => some []
  | [a, b, '=', '='] => do
    let n := 64 * (← base64Value? a) + (← base64Value? b)
    return [UInt8.ofNat (n / 16)]
  | [a, b, c, '='] => do
    let n := 4096 * (← base64Value? a) + 64 * (← base64Value? b) + (← base64Value? c)
    return [UInt8.ofNat (n / 1024), UInt8.ofNat (n / 4)]
  | a :: b :: c :: d :: rest => do
    let n := 262144 * (← base64Value? a) + 4096 * (← base64Value? b) + 64 * (← base64Value? c) +
      (← base64Value? d)
    let rest ← base64Bytes? rest
    return UInt8.ofNat (n / 65536) :: UInt8.ofNat (n / 256) :: UInt8.ofNat n :: rest
  | _ => none

/-- The text whose bytes are written in base 64. -/
def ofBase64? (written : String) : Option String :=
  (base64Bytes? (written.toList.filter fun c => c ≠ '\n' && c ≠ '\r')).bind fun bytes =>
    String.fromUTF8? ⟨bytes.toArray⟩

end Text

end ShaderGraph
