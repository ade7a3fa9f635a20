import ShaderGraph.Toml.Document

/-!
# Keys that a TOML document has defined

A key is defined once. A header may name a table that keys have only passed through, but not one
that has a header or that assignments have made; an assignment may not reach into a table that has
a header, nor into a value.

`Keys` remembers what is known of every path from the root; `assign?`, `openTable?` and
`openNext?` add an assignment or a header, and give nothing for one that defines a key again.
-/

namespace ShaderGraph

namespace Toml

/-- What a key is. -/
inductive KeyKind where
  | value
  | table
  | tableArray
deriving DecidableEq

/-- What is known of a key. -/
structure KeyEntry where
  path : Key
  kind : KeyKind
  /-- The table is complete: it has a header, or assignments have made it and ended. -/
  closed : Bool
  /-- An assignment has made the table, and may still add to it. -/
  assigned : Bool

/-- The keys that have been defined, and the table that assignments belong to. -/
structure Keys where
  entries : List KeyEntry := []
  current : Key := []

namespace Keys

/-- What is known of a path. -/
def find? (keys : Keys) (path : Key) : Option KeyEntry := keys.entries.find? (·.path == path)

/-- Adds an entry. -/
def add (keys : Keys) (entry : KeyEntry) : Keys := { keys with entries := keys.entries ++ [entry] }

/-- Whether a path leads into the table with another path. -/
def isWithin (path table : Key) : Bool := table.isPrefixOf path && table.length < path.length

/-- The tables that assignments have made in the current table are complete. -/
def closeAssigned (keys : Keys) : Keys :=
  { keys with entries := keys.entries.map fun e =>
      let complete := e.assigned && isWithin e.path keys.current
      if complete then { e with closed := true, assigned := false } else e }

/-- Passes through the tables on the way to the last name of a key. -/
def reach? (keys : Keys) (key : Key) : Option Keys :=
  (List.range (key.length - 1)).foldlM (fun keys i =>
    let path := key.take (i + 1)
    match keys.find? path with
    | none => some (keys.add ⟨path, .table, false, false⟩)
    | some entry => if entry.kind = .value then none else some keys) keys

/-- The header of a table. -/
def openTable? (keys : Keys) (key : Key) : Option Keys := do
  let keys ← keys.closeAssigned.reach? key
  match keys.find? key with
  | none => return { keys.add ⟨key, .table, true, false⟩ with current := key }
  | some entry =>
    if entry.kind ≠ .table || entry.closed then none
    let close (e : KeyEntry) : KeyEntry := if e.path == key then { e with closed := true } else e
    return { entries := keys.entries.map close, current := key }

/-- The header of the next table of an array of tables. What the last one defined is forgotten. -/
def openNext? (keys : Keys) (key : Key) : Option Keys := do
  let keys ← keys.closeAssigned.reach? key
  match keys.find? key with
  | none => return { keys.add ⟨key, .tableArray, true, false⟩ with current := key }
  | some entry =>
    if entry.kind ≠ .tableArray then none
    return { entries := keys.entries.filter fun e => !isWithin e.path key, current := key }

/-- The key of an assignment. -/
def assignKey? (keys : Keys) (key : Key) : Option Keys :=
  (List.range key.length).foldlM (fun keys i =>
    let path := keys.current ++ key.take (i + 1)
    let last := i + 1 = key.length
    match keys.find? path with
    | none => some (keys.add ⟨path, if last then .value else .table, false, true⟩)
    | some entry => if last || entry.kind ≠ .table || entry.closed then none else some keys) keys

end Keys

/-- Whether no table in braces within a value defines a key again. -/
def Value.definesOnce : Value → Bool
  | .array items => items.attach.all fun ⟨item, _⟩ => item.definesOnce
  | .table entries =>
    ((entries.map (·.1)).foldlM Keys.assignKey? {}).isSome &&
      entries.attach.all fun ⟨entry, _⟩ => entry.2.definesOnce
  | _ => true
decreasing_by
  · decreasing_tactic
  · have := List.sizeOf_lt_of_mem ‹entry ∈ entries›
    cases entry
    simp_all
    omega

/-- An assignment. -/
def Keys.assign? (keys : Keys) (key : Key) (value : Value) : Option Keys :=
  if value.definesOnce then keys.assignKey? key else none

end Toml

end ShaderGraph
