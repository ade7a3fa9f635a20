import ShaderGraph.Yaml.Node

/-!
# Mappings that take entries from others

The value of the key `<<` is a mapping, or a list of mappings, whose entries a mapping takes over if
it has none with their keys. What a mapping stands for is a list of layers, in which entries of
former ones win.

Keys are compared as they are written before anything is made of them. A mapping in which a key is
repeated stands for nothing.
-/

namespace ShaderGraph

namespace Yaml

/-! ### Keys -/

/-- Whether two keys are the same as they are written. Sequences are not told apart, and neither
are mappings. -/
def Node.isSameKey : Node → Node → Bool
  | .scalar _ _ content, .scalar _ _ other => content == other
  | .sequence _, .sequence _ => true
  | .mapping _, .mapping _ => true
  | .reference name _, .reference other _ => name == other
  | _, _ => false

/-- Whether a key is repeated. -/
def hasRepeatedKey : List (Node × Node) → Bool
  | [] => false
  | (key, _) :: rest => rest.any (fun entry => key.isSameKey entry.1) || hasRepeatedKey rest

/-- Whether a key asks for the entries of other mappings. -/
def Node.isMerge : Node → Bool
  | .scalar tag plain content => content == "<<" && (tag == some "!!merge" || (tag.isNone && plain))
  | _ => false

/-- Whether a node is a sequence or a mapping. -/
def Node.isCollection : Node → Bool
  | .scalar .. => false
  | .sequence _ => true
  | .mapping _ => true
  | .reference _ target =>
    match target with
    | some (.sequence _) | some (.mapping _) => true
    | _ => false

/-! ### Layers -/

/-- What is taken from one mapping. -/
inductive Layer where
  | entries (es : List (Node × Node))
  /-- A mapping with a repeated key. -/
  | repeated
  /-- Something else than a mapping. -/
  | unfit

/-- The value of an entry is smaller than the entries. -/
theorem sizeOf_snd_lt {es : List (Node × Node)} {entry : Node × Node} (h : entry ∈ es) :
    sizeOf entry.2 < sizeOf es := by
  have := List.sizeOf_lt_of_mem h
  cases entry
  simp_all
  omega

/-- The layers that a mapping stands for. -/
def Node.layers : Node → List Layer
  | .mapping es =>
    if hasRepeatedKey es then [.repeated]
    else
      .entries (es.filter fun entry => !entry.1.isMerge) ::
        match h : es.find? fun entry => entry.1.isMerge with
        | none => []
        | some entry =>
          have := sizeOf_snd_lt (List.mem_of_find?_eq_some h)
          match _ : entry.2 with
          | .sequence items =>
            items.attach.flatMap fun ⟨item, hi⟩ =>
              have := List.sizeOf_lt_of_mem hi
              item.layers
          | node => node.layers
  | .reference _ (some (.mapping es)) => (Node.mapping es).layers
  | _ => [.unfit]
termination_by n => sizeOf n
decreasing_by all_goals simp_all; try omega

end Yaml

end ShaderGraph
