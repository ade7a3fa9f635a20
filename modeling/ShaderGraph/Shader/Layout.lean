import ShaderGraph.Pass.CustomOutputs
import ShaderGraph.Pass.Interpolation

/-!
# Where interpolated scalars are kept

The interpolators that the pixel stage reads share the texture coordinates that it does not read
itself. Each coordinate holds two scalars, and scalars are given out in the order in which the
interpolators were first read.
-/

namespace ShaderGraph

/-- The texture coordinates given out so far, and the one with room for a second scalar. -/
structure Layout where
  used : FlagSet
  half : Option Nat := none

namespace Layout

/-- The coordinate of the next scalar. -/
def next (l : Layout) : Nat × Layout :=
  match l.half with
  | some i => (i, { l with half := none })
  | none =>
    let (i, used) := l.used.insertLeast
    (i, ⟨used, some i⟩)

/-- The coordinates of the next `n` scalars. -/
def take : Nat → Layout → List Nat × Layout
  | 0, l => ([], l)
  | n + 1, l =>
    let (i, l) := l.next
    let (rest, l) := take n l
    (i :: rest, l)

/-- The coordinates of the scalars of each interpolator. -/
def assign : List Interpolator → Layout → List (Interpolator × List Nat) × Layout
  | [], l => ([], l)
  | i :: rest, l =>
    let (places, l) := take i.size l
    let (assigned, l) := assign rest l
    ((i, places) :: assigned, l)

end Layout

namespace Interpolator

/-- Puts an interpolator before those with a larger offset. -/
def insertByOffset (i : Interpolator) : List Interpolator → List Interpolator
  | [] => [i]
  | j :: rest =>
    if i.offset.getD 0 < j.offset.getD 0 then i :: j :: rest else j :: insertByOffset i rest

/-- The interpolators in the order of their offsets. -/
def sortByOffset (l : List Interpolator) : List Interpolator :=
  l.foldl (fun sorted i => insertByOffset i sorted) []

/-- The defines that say where an interpolator is kept. -/
def layoutText (i : Interpolator) (places : List Nat) : String :=
  "\n" ++ String.join (places.zipIdx.map fun (place, c) =>
    defineNumber (i.coordinateName c) "\t" place) ++ "\n"

/-- The lines that write an interpolator in the vertex stage. -/
def assignments (i : Interpolator) : String :=
  match i.offset with
  | none => ""
  | some offset =>
    String.join <| (List.range i.size).map fun c =>
      "\tOut" ++ i.place offset c ++ s!" = VertexInterpolator{i.index}(Parameters)." ++
        componentLetter "xyzw" c ++ ";\n"

end Interpolator

/-- Where the interpolators that the pixel stage reads are kept. -/
def Pass.layout (p : Pass) : List (Interpolator × List Nat) × Layout :=
  Layout.assign (Interpolator.sortByOffset (p.interpolators.filter (·.offset.isSome)))
    ⟨p.pixelCoordinates, none⟩

end ShaderGraph
