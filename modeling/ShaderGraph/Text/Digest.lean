/-!
# Digests of texts

A 64 bit digest of a text or of other digests. Code is told apart by its digest together with its
text, so a collision of digests alone never merges two pieces of code; virtual texture coordinates
are told apart by the digest alone.
-/

namespace ShaderGraph

/-- The digest of a piece of code. -/
abbrev Digest := UInt64

namespace Digest

/-- Spreads every bit of a word over the whole word. -/
def mix (x : UInt64) : UInt64 :=
  let x := (x ^^^ (x >>> 30)) * 0xbf58476d1ce4e5b9
  let x := (x ^^^ (x >>> 27)) * 0x94d049bb133111eb
  x ^^^ (x >>> 31)

/-- The word of up to eight bytes, the least significant first. -/
def word : List UInt8 → UInt64
  | [] => 0
  | b :: rest => b.toUInt64 ||| (word rest <<< 8)

/-- Absorbs bytes into a digest, eight at a time; zeros fill the last word. -/
def absorb (x : UInt64) : List UInt8 → UInt64
  | [] => x
  | b₀ :: b₁ :: b₂ :: b₃ :: b₄ :: b₅ :: b₆ :: b₇ :: rest =>
    absorb (mix (x ^^^ word [b₀, b₁, b₂, b₃, b₄, b₅, b₆, b₇])) rest
  | rest => mix (x ^^^ word rest)

/-- The digest of a text, begun from `seed`. -/
def ofText (s : String) (seed : Digest) : Digest := absorb seed s.toUTF8.data.toList

/-- The digest of a list of digests. -/
def combine (ds : List Digest) : Digest := ds.foldl (fun x d => mix (x ^^^ d)) 0

end Digest

end ShaderGraph
